/-
Requests to a lexer.

A caller takes the next token, or one turn of an iteration, or every token up to
the end of the source, in any order.  Whatever it asks for, the lexer answers by
calls of `next` and by nothing else: `asked` lists the lexers that such a call is
made on, the first one first.  `serveAll_keeps` is the induction that goes with
it, and `reports_serve` says what a request reports beside those calls.

`Logged.serve` writes every report when it is made and comes to the same.
-/
import RuleLex.Proofs.Lexer.Logged

namespace RuleLex

/-- What a caller may ask of a lexer: its next token, one turn of an iteration,
or every token up to the end of the source. -/
inductive Request where
  | next | item | all
deriving DecidableEq, Repr

/-- What a request hands out. -/
inductive Reply where
  | next (result : Except LexError Token)
  | item (result : Option (Except LexError Token))
  | all (result : Except LexError (List Token))

namespace Lexer

/-- What comes of a request: what is handed out, the lexer after it and the
reports made on the way. -/
structure Served where
  reply : Reply
  lexer : Lexer
  reports : List Log.Event

/-- Serves one request. -/
def serve (lx : Lexer) : Request → Served
  | .next => { reply := .next lx.next.result, lexer := lx.next.lexer, reports := lx.next.reports }
  | .item =>
    match lx.iterate with
    | none => { reply := .item none, lexer := lx, reports := [] }
    | some a => { reply := .item (some a.result), lexer := a.lexer, reports := a.reports }
  | .all =>
    { reply := .all lx.tokenize.result,
      lexer := lx.tokenize.lexer,
      reports := lx.tokenize.reports }

/-- The lexer after some requests. -/
def serveAll (lx : Lexer) (requests : List Request) : Lexer :=
  requests.foldl (fun l r => (l.serve r).lexer) lx

/-- What some requests hand out. -/
def replies (lx : Lexer) : List Request → List Reply
  | [] => []
  | r :: requests => (lx.serve r).reply :: (lx.serve r).lexer.replies requests

/-- The lexers whose next token is taken until it is an error or the end of the
source. -/
def untilError (lx : Lexer) : List Lexer :=
  match _answer : lx.next.result with
  | .error _ => [lx]
  | .ok t => if _ends : t.isEof then [lx] else lx :: untilError lx.next.lexer
termination_by lx.weight
decreasing_by
  have := weight_next lx
  rw [Answer.isEnd, _answer] at this
  simpa [_ends] using this

/-- The lexers that a request takes the next token of. -/
def asks (lx : Lexer) : Request → List Lexer
  | .next => [lx]
  | .item => if lx.finished then [] else [lx]
  | .all => lx.untilError

/-- The lexers that some requests take the next token of. -/
def asked (lx : Lexer) : List Request → List Lexer
  | [] => []
  | r :: requests => lx.asks r ++ (lx.serve r).lexer.asked requests

variable {lx : Lexer}

theorem serve_item_finished (h : lx.finished = true) :
    lx.serve .item = { reply := .item none, lexer := lx, reports := [] } := by
  have none_left : lx.iterate = none := if_pos h
  rw [serve, none_left]

theorem serve_item_unfinished (h : lx.finished = false) :
    lx.serve .item =
      { reply := .item (some lx.next.result),
        lexer := { lx.next.lexer with finished := lx.next.isEnd },
        reports := lx.next.reports } := by
  rw [serve, iterate_unfinished h]

/-! ## Every token of a source -/

/-- Giving up at the first error, a run answers for the lexers it asks. -/
theorem follow_untilError (done : List Answer) (lx : Lexer) :
    follow false done lx = (lx.untilError.map next).reverse ++ done := by
  fun_induction untilError lx generalizing done with
  | case1 lx e hresult => exact follow_of_error hresult done
  | case2 lx t hresult hend => exact follow_of_end hresult hend done
  | case3 lx t hresult hend ih =>
    rw [follow_of_token hresult (Bool.eq_false_iff.2 hend), ih, List.map_cons,
      List.reverse_cons, List.append_assoc]
    rfl

/-- The last answer of a run comes from the last lexer it asks. -/
theorem head?_follow (lx : Lexer) :
    (lx.follow false []).head? = lx.untilError.getLast?.map next := by
  rw [follow_untilError, List.append_nil, List.head?_reverse, List.getLast?_map]

/-- The lexer after a whole source is the one after the last call. -/
theorem lexer_tokenize (lx : Lexer) :
    lx.tokenize.lexer = (lx.untilError.getLast?.map fun l => l.next.lexer).getD lx := by
  have last : lx.tokenize.lexer = ((lx.follow false []).head?.map Answer.lexer).getD lx := by
    unfold tokenize
    simp only
    split <;> rfl
  rw [last, head?_follow, Option.map_map]
  rfl

theorem lexer_tokenize_of_error {e : LexError} (h : lx.next.result = .error e) :
    lx.tokenize.lexer = lx.next.lexer := by
  have asked : lx.untilError = [lx] := by
    rw [untilError.eq_def]
    split
    · rfl
    · rename_i ht
      rw [h] at ht
      cases ht
  rw [lexer_tokenize, asked]
  rfl

theorem untilError_of_ok {t : Token} (h : lx.next.result = .ok t) :
    lx.untilError = if t.isEof then [lx] else lx :: lx.next.lexer.untilError := by
  rw [untilError.eq_def]
  split
  · rename_i he
    rw [h] at he
    cases he
  · rename_i ht
    rw [h] at ht
    cases ht
    rfl

theorem lexer_tokenize_of_end {t : Token} (h : lx.next.result = .ok t) (ht : t.isEof = true) :
    lx.tokenize.lexer = lx.next.lexer := by
  rw [lexer_tokenize, untilError_of_ok h, if_pos ht]
  rfl

theorem untilError_ne_nil (lx : Lexer) : lx.untilError ≠ [] := by
  rw [untilError.eq_def]
  split
  · exact List.cons_ne_nil _ _
  · split <;> exact List.cons_ne_nil _ _

theorem lexer_tokenize_of_token {t : Token} (h : lx.next.result = .ok t)
    (ht : t.isEof = false) : lx.tokenize.lexer = lx.next.lexer.tokenize.lexer := by
  have last := List.getLast?_eq_some_getLast (untilError_ne_nil lx.next.lexer)
  rw [lexer_tokenize, lexer_tokenize, untilError_of_ok h, if_neg (Bool.eq_false_iff.1 ht),
    List.getLast?_cons, last]
  rfl

/-- A whole source is reported call by call, and once more when it has no
error. -/
theorem reports_tokenize (lx : Lexer) :
    lx.tokenize.reports =
      lx.untilError.flatMap (fun l => l.next.reports) ++
        match lx.tokenize.result with
        | .ok tokens => [lx.tokenize.lexer.completionReport tokens, streamReport tokens]
        | .error _ => [] := by
  have calls : (lx.follow false []).reverse.flatMap Answer.reports =
      lx.untilError.flatMap (fun l => l.next.reports) := by
    rw [follow_untilError, List.append_nil, List.reverse_reverse, List.flatMap_map]
  rw [← calls]
  unfold tokenize
  match lx.follow false [] with
  | [] => rfl
  | { result := .ok t, lexer := _, reports := _ } :: rest => rfl
  | { result := .error e, lexer := _, reports := _ } :: rest => exact (List.append_nil _).symm

/-! ## What requests keep -/

variable {P : List Lexer → Lexer → Prop}

theorem untilError_keeps (hnext : ∀ told lx, P told lx → P (told ++ [lx]) lx.next.lexer)
    (told : List Lexer) (lx : Lexer) (h : P told lx) :
    P (told ++ lx.untilError) lx.tokenize.lexer := by
  fun_induction untilError lx generalizing told with
  | case1 lx e hresult =>
    rw [lexer_tokenize_of_error hresult]
    exact hnext told lx h
  | case2 lx t hresult hend =>
    rw [lexer_tokenize_of_end hresult hend]
    exact hnext told lx h
  | case3 lx t hresult hend ih =>
    have kept := ih (told ++ [lx]) (hnext told lx h)
    rw [lexer_tokenize_of_token hresult (Bool.eq_false_iff.2 hend)]
    rwa [List.append_assoc] at kept

/-- What every call keeps, told of the lexers that were called so far, any
requests keep; the mark that an iteration sets behind the end token must not
matter. -/
theorem serveAll_keeps (hnext : ∀ told lx, P told lx → P (told ++ [lx]) lx.next.lexer)
    (hmark : ∀ told lx b, P told lx → P told { lx with finished := b })
    (told : List Lexer) (lx : Lexer) (h : P told lx) (requests : List Request) :
    P (told ++ lx.asked requests) (lx.serveAll requests) := by
  induction requests generalizing told lx with
  | nil =>
    rw [asked, List.append_nil]
    exact h
  | cons r requests ih =>
    have one : P (told ++ lx.asks r) (lx.serve r).lexer := by
      cases r with
      | next => exact hnext told lx h
      | item =>
        cases hfinished : lx.finished with
        | true =>
          rw [serve_item_finished hfinished, asks, if_pos hfinished, List.append_nil]
          exact h
        | false =>
          rw [serve_item_unfinished hfinished, asks, if_neg (by rw [hfinished]; nofun)]
          exact hmark _ _ _ (hnext told lx h)
      | all => exact untilError_keeps hnext told lx h
    rw [asked, ← List.append_assoc]
    exact ih _ _ one

/-- What every call keeps holds of every lexer that is called and of the one
after all requests. -/
theorem asked_keeps {Q : Lexer → Prop} (hnext : ∀ lx, Q lx → Q lx.next.lexer)
    (hmark : ∀ lx b, Q lx → Q { lx with finished := b }) (h : Q lx) (requests : List Request) :
    (∀ l ∈ lx.asked requests, Q l) ∧ Q (lx.serveAll requests) := by
  refine serveAll_keeps (P := fun told l => (∀ m ∈ told, Q m) ∧ Q l) ?_ ?_ [] lx
    ⟨by simp, h⟩ requests
  · rintro told l ⟨htold, hl⟩
    refine ⟨fun m hm => ?_, hnext l hl⟩
    rcases List.mem_append.1 hm with hm | hm
    · exact htold m hm
    · rw [List.mem_singleton.1 hm]
      exact hl
  · rintro told l b ⟨htold, hl⟩
    exact ⟨htold, hmark l b hl⟩

/-! ## What requests report -/

/-- What a request reports beside the calls it makes. -/
def closingReports (served : Served) : List Log.Event :=
  match served.reply with
  | .all (.ok tokens) => [served.lexer.completionReport tokens, streamReport tokens]
  | _ => []

theorem reports_serve (lx : Lexer) (r : Request) :
    (lx.serve r).reports =
      (lx.asks r).flatMap (fun l => l.next.reports) ++ closingReports (lx.serve r) := by
  cases r with
  | next => simp only [serve, asks, closingReports, List.flatMap_singleton, List.append_nil]
  | item =>
    cases hfinished : lx.finished with
    | true => rw [serve_item_finished hfinished, asks, if_pos hfinished]; rfl
    | false =>
      rw [serve_item_unfinished hfinished, asks, if_neg (by rw [hfinished]; nofun)]
      simp only [closingReports, List.flatMap_singleton, List.append_nil]
  | all =>
    show lx.tokenize.reports = lx.untilError.flatMap _ ++ closingReports (lx.serve .all)
    rw [reports_tokenize]
    cases hresult : lx.tokenize.result <;> simp only [closingReports, serve, hresult]

/-! ## Written when they are made -/

namespace Logged

variable {σ : Type} (log : σ → Log.Event → σ)

/-- Serves one request and writes every report when it is made. -/
def serve (s : Logged σ) : Request → Reply × Logged σ
  | .next => (.next (next log s).1, (next log s).2)
  | .item =>
    if s.lexer.finished then (.item none, s)
    else
      match next log s with
      | (.ok t, after) =>
        (.item (some (.ok t)), { after with lexer := { after.lexer with finished := t.isEof } })
      | (.error e, after) =>
        (.item (some (.error e)), { after with lexer := { after.lexer with finished := false } })
  | .all => (.all (tokenize log s).1, (tokenize log s).2)

/-- A lexer at work, after some requests. -/
def serveAll (s : Logged σ) (requests : List Request) : Logged σ :=
  requests.foldl (fun s r => (serve log s r).2) s

theorem serve_eq (s : Logged σ) (r : Request) :
    serve log s r =
      let served := s.lexer.serve r
      (served.reply,
        { lexer := served.lexer, written := served.reports.foldl log s.written }) := by
  cases r with
  | next => simp only [serve, Lexer.serve, next_eq]
  | item =>
    cases hfinished : s.lexer.finished with
    | true => rw [serve_item_finished hfinished, serve, if_pos hfinished]; rfl
    | false =>
      rw [serve_item_unfinished hfinished, serve, if_neg (by rw [hfinished]; nofun), next_eq]
      cases hresult : s.lexer.next.result <;> simp only [Answer.isEnd, hresult]
  | all => simp only [serve, Lexer.serve, tokenize_eq]

end Logged
end Lexer
end RuleLex
