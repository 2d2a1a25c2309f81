/-
A lexer that stays in a literal behind an error.

Without a reset an error inside a literal leaves the lexer in it: the next call
reads on as content of the same literal, with nothing gathered.  `Within` follows
a literal through the answers of a run, from the call that comes to its delimiter
over each error inside it, and tells where its content counts from.
`literal_calls` says that this is what the lexer does, and `stuck_literals` has
what follows for the tokens of a run.

The order of the spans is apart from that.  `Past k` says that the lexer holds
nothing from before the offset `k`; every step keeps it, and a token leaves the
lexer past its own end.
-/
import RuleLex.Proofs.Lexer.Approach

namespace RuleLex

/-! ## The end of the source inside a literal -/

/-- Nothing but content is left in front of the end of the source, and perhaps a
backslash. -/
def RunsOut (form : Quoted) (s : List UInt8) : Prop :=
  ∃ content tail, s = content ++ tail ∧ form.Content content ∧ Piece.AtEnd tail

/-- The fault of a literal is that the source ends in it, not that its line does. -/
def RaisedAtEnd (form : Quoted) (s : List UInt8) (fault : Fault) : Prop :=
  fault = Piece.unterminated form ∧ RunsOut form s

theorem RunsOut.newline_not_mem {form : Quoted} {s : List UInt8} (h : RunsOut form s) :
    Ascii.newline ∉ s := by
  obtain ⟨content, tail, rfl, hcontent, atEnd⟩ := h
  rw [List.mem_append, not_or]
  refine ⟨hcontent.newline_not_mem, ?_⟩
  rcases atEnd with rfl | rfl <;> decide

theorem Interrupts.staysOpen {form : Quoted} {ending : List UInt8} {fault : Fault}
    (h : Interrupts form ending fault) : fault.staysOpen = true := by
  cases h with
  | newline | escapedNewline => cases form <;> rfl
  | escape => rfl

/-- What breaks a literal off is found before the end of the source. -/
theorem Interrupts.inside {form : Quoted} {content ending rest : List UInt8} {fault : Fault}
    (h : Interrupts form ending fault) :
    ¬ RaisedAtEnd form (content ++ (ending ++ rest)) fault := by
  rintro ⟨hfault, runsOut⟩
  have quiet := runsOut.newline_not_mem
  cases h with
  | newline | escapedNewline => simp at quiet
  | escape => cases hfault

namespace Lexer

/-! ## The order of tokens -/

/-- Nothing from before the offset `k` is left to be answered for. -/
structure Past (k : Nat) (lx : Lexer) : Prop where
  position : k ≤ lx.position.offset
  opening : ∀ p, lx.mode.opening? = some p → k ≤ p.offset ∧ p.offset ≤ lx.position.offset

variable {lx after : Lexer} {n k : Nat}

theorem Consumes.offset_le (h : Consumes lx n after) :
    lx.position.offset ≤ after.position.offset := by
  rw [h.position_eq, Position.offset_advanceBytes]
  exact Nat.le_add_right _ _

theorem Past.step (h : Past k lx) : Past k lx.step.lexer := by
  obtain ⟨n, hn⟩ := consumes_step lx
  refine ⟨Nat.le_trans h.position hn.offset_le, fun p hp => ?_⟩
  rcases opening_step hp with rfl | opened
  · exact ⟨h.position, hn.offset_le⟩
  · obtain ⟨later, before⟩ := h.opening p opened
    exact ⟨later, Nat.le_trans before hn.offset_le⟩

theorem Past.nextFrom (h : Past k lx) (reports : List Log.Event) :
    Past k (nextFrom reports lx).lexer :=
  nextFrom_keeps (fun _ hl => hl.step) (fun _ _ hl => ⟨hl.position, hl.opening⟩) reports lx h

theorem Past.calls (h : Past k lx) (n : Nat) : Past k (lx.calls n) := by
  induction n with
  | zero => exact h
  | succ n ih =>
    rw [calls_succ]
    exact ih.nextFrom []

/-- A token lies past what the lexer is past, and the lexer is past its end. -/
theorem Past.token (h : Past k lx) {t : Token} {reports : List Log.Event}
    (ht : (Lexer.nextFrom reports lx).result = .ok t) :
    k ≤ t.span.start.offset ∧ t.span.start.offset ≤ t.span.stop.offset ∧
      Past t.span.stop.offset (Lexer.nextFrom reports lx).lexer := by
  fun_induction Lexer.nextFrom reports lx with
  | case1 reports lx after new hstep ih =>
    have kept := h.step
    rw [hstep] at kept
    exact ih kept ht
  | case2 reports lx after result new hstep =>
    rw [result_settle] at ht
    subst ht
    obtain ⟨n, hn⟩ := consumes_step lx
    rw [hstep] at hn
    obtain ⟨stop, start⟩ := span_step hstep
    have initial : after.mode = .initial := by
      cases left_answer hstep with
      | initial hm => exact hm
    have forward : lx.position.offset ≤ after.position.offset := hn.offset_le
    have passed (metrics : Metrics) :
        Past after.position.offset { after with metrics := metrics } := by
      refine ⟨Nat.le_refl _, fun p hp => ?_⟩
      have none_open : after.mode.opening? = some p := hp
      rw [initial] at none_open
      cases none_open
    rw [lexer_settle, stop]
    -- A literal's token starts where it was opened, which may be many calls ago.
    rcases start with start | opened
    · rw [start]
      exact ⟨h.position, forward, passed _⟩
    · obtain ⟨later, before⟩ := h.opening _ opened
      exact ⟨later, Nat.le_trans before forward, passed _⟩

theorem calls_calls (m n : Nat) (lx : Lexer) : (lx.calls m).calls n = lx.calls (m + n) := by
  rw [Nat.add_comm]
  exact (Function.iterate_add_apply _ n m lx).symm

/-- The tokens of a run are in order and do not overlap. -/
theorem spans_ordered {m n : Nat} {t u : Token} (h : Past k lx) (hmn : m < n)
    (ht : (lx.calls m).next.result = .ok t) (hu : (lx.calls n).next.result = .ok u) :
    t.span.stop.offset ≤ u.span.start.offset := by
  obtain ⟨-, -, passed⟩ := (h.calls m).token ht
  obtain ⟨later, rfl⟩ := Nat.exists_eq_add_of_le hmn
  have reached := passed.calls later
  rw [← next, ← calls_succ, calls_calls] at reached
  exact (reached.token hu).1

theorem past_new (source : List UInt8) (preferences : LexicalPreferences)
    (service : PatternService) : Past 0 (new source preferences service) :=
  ⟨Nat.zero_le _, nofun⟩

/-- The cursor never goes back. -/
theorem offset_calls (lx : Lexer) (n : Nat) :
    lx.position.offset ≤ (lx.calls n).position.offset := by
  induction n with
  | zero => exact Nat.le_refl _
  | succ n ih =>
    rw [calls_succ]
    refine nextFrom_keeps (P := fun l => lx.position.offset ≤ l.position.offset) ?_ ?_ [] _ ih
    · intro l hl
      obtain ⟨n, hn⟩ := consumes_step l
      exact Nat.le_trans hl hn.offset_le
    · intro l metrics hl
      exact hl

/-! ## Which literal a call reads -/

/-- Call `n` of a run over a source reads the literal that was opened at `opening`,
and its content from the offset `k` on.  A literal is opened by the first call that
comes to its delimiter, and each error inside it is followed by a call that reads
on where that error has left the cursor. -/
inductive Within (run : Lexer) : Nat → Quoted → Position → Nat → Prop
  | opened {n : Nat} {form : Quoted} {gap s : List UInt8} {opening : Position}
    (hm : (run.calls n).mode = .initial)
    (rest_eq : (run.calls n).rest = gap ++ form.delimiter :: s)
    (padding : Padding (form.delimiter :: s) gap) (opens : form.Opens s)
    (opening_eq : opening = (run.calls n).position.advanceBytes gap) :
    Within run n form opening (opening.offset + 1)
  | resumed {n k : Nat} {form : Quoted} {opening : Position} {e : LexError}
    (before : Within run n form opening k) (he : (run.calls n).next.result = .error e)
    (stays : e.fault.staysOpen = true) (inside : ¬ RaisedAtEnd form (run.rest.drop k) e.fault) :
    Within run (n + 1) form opening (run.calls (n + 1)).position.offset

/-- Where the end of a call inside a literal leaves the lexer. -/
inductive Leaves (lx : Lexer) (form : Quoted) (opening : Position) : Prop
  | initial (mode_eq : lx.next.lexer.mode = .initial)
    (ended : ∀ e, lx.next.result = .error e → e.fault.staysOpen = true →
      RaisedAtEnd form lx.rest e.fault ∧ lx.next.lexer.rest = [])
  | inside {e : LexError} (mode_eq : lx.next.lexer.mode = .quoted form opening [])
    (he : lx.next.result = .error e) (stays : e.fault.staysOpen = true)
    (inside : ¬ RaisedAtEnd form lx.rest e.fault)

theorem Ends.leaves {form : Quoted} {opening : Position} (h : Ends lx form opening)
    (hstay : lx.preferences.resetModeOnError = false) : Leaves lx form opening := by
  have broken : lx.brokenMode form opening = .quoted form opening [] := by
    rw [brokenMode, hstay]
    rfl
  cases h with
  | tooLong _ _ _ answers =>
    refine .inside (answers.mode_eq.trans broken) answers.result_eq rfl ?_
    rintro ⟨hfault, -⟩
    exact unterminated_ne_tooLong form _ hfault.symm
  | closed _ _ _ answers =>
    refine .initial answers.mode_eq fun e he _ => ?_
    cases he.symm.trans answers.result_eq
  | misflagged _ _ _ _ answers =>
    refine .initial answers.mode_eq fun e he stays => ?_
    cases he.symm.trans answers.result_eq
    cases stays
  | interrupted splits _ interrupts answers =>
    refine .inside (answers.mode_eq.trans broken) answers.result_eq interrupts.staysOpen ?_
    rw [splits.eq_append]
    exact interrupts.inside
  | exhausted splits _ atEnd answers =>
    refine .initial answers.mode_eq fun e he _ => ?_
    cases he.symm.trans answers.result_eq
    refine ⟨⟨rfl, _, _, splits.eq_append, splits.content, atEnd⟩, ?_⟩
    rw [answers.consumes.rest_eq, List.drop_length]

/-! ## Every call of a run -/

/-- What call `n` of a run does: outside literals it answers and is outside again,
and inside one it reads from where `Within` says. -/
inductive Call (run : Lexer) (n : Nat) : Prop
  | token {t : Token} {m : Nat} (ht : t.kind.isQuoted = false)
    (answers : Answers (run.calls n) (.ok t) m .initial)
  | error {e : LexError} {m : Nat} (stays : e.fault.staysOpen = false)
    (ended : e.fault = .unterminatedComment → (run.calls n).next.lexer.rest = [])
    (answers : Answers (run.calls n) (.error e) m .initial)
  | literal {form : Quoted} {opening : Position} {k m : Nat} {inside : Lexer}
    (within : Within run n form opening k)
    (start : k = max (opening.offset + 1) (run.calls n).position.offset)
    (reaches : Reaches (run.calls n) m inside) (rest_eq : inside.rest = run.rest.drop k)
    (offset_eq : inside.position.offset = k) (hm : inside.mode = .quoted form opening [])

theorem Behind.rest_eq_drop {source before : List UInt8} {service : PatternService}
    {preferences : LexicalPreferences} (h : Behind source service preferences before lx) :
    lx.rest = source.drop lx.position.offset := by
  rw [h.offset_eq, h.source_eq, List.drop_left]

section Run

variable {source : List UInt8} {preferences : LexicalPreferences} {service : PatternService}

theorem call_of_initial (hm : ((new source preferences service).calls n).mode = .initial) :
    Call (new source preferences service) n := by
  obtain ⟨before, behind⟩ := behind_calls source preferences service n
  obtain ⟨gap, front, approaches, finds⟩ := exists_front hm
  have reaches := approaches.reaches
  cases finds with
  | token ht answers => exact .token ht (reaches.answers answers)
  | refused _ refused answers =>
    obtain ⟨stays, complete⟩ := refused.complete
    exact .error stays (fun h => absurd h complete) (reaches.answers answers)
  | comment _ _ answers =>
    refine .error rfl (fun _ => ?_) (reaches.answers answers)
    rw [reaches.lexer_eq, answers.consumes.rest_eq, List.drop_length]
  | @literal s form opened opens enters =>
    have whole := reaches.trans enters.reaches
    have opened_behind := behind.consumes whole.consumes
    have offset_eq : opened.position.offset = front.position.offset + 1 := by
      rw [enters.position_eq, Position.offset_advanceBytes]
      rfl
    have rest_eq := approaches.rest_eq
    have padding := approaches.padding
    rw [enters.rest_eq] at rest_eq padding
    refine .literal (.opened hm rest_eq padding opens approaches.position_eq) ?_ whole ?_ offset_eq
      enters.mode_eq
    · have forward := reaches.consumes.offset_le
      omega
    · rw [opened_behind.rest_eq_drop, offset_eq]
      rfl

theorem Reaches.stays {m : Nat} (hstay : preferences.resetModeOnError = false)
    (h : Reaches ((new source preferences service).calls n) m lx) :
    lx.preferences.resetModeOnError = false := by
  rw [h.consumes.preferences_eq, preferences_calls]
  exact hstay

/-- Every call of a run without a reset is accounted for. -/
theorem literal_calls (hstay : preferences.resetModeOnError = false) (n : Nat) :
    Call (new source preferences service) n := by
  induction n with
  | zero => exact call_of_initial rfl
  | succ n ih =>
    cases settled_calls source preferences service (n + 1) with
    | initial hm => exact call_of_initial hm
    | inside hm _ =>
      -- Only a call inside a literal leaves the lexer there, and it is the same one.
      have after := calls_succ n (new source preferences service)
      obtain ⟨before, behind⟩ := behind_calls source preferences service (n + 1)
      cases ih with
      | token _ answers | error _ _ answers =>
        rw [after, answers.mode_eq] at hm
        cases hm
      | @literal form opening k m inside within start reaches rest_eq offset_eq hinside =>
        rw [after, reaches.lexer_eq] at hm
        cases (ends_of_quoted hinside).leaves (reaches.stays hstay) with
        | initial mode_eq =>
          rw [mode_eq] at hm
          cases hm
        | inside mode_eq he stays raised =>
          have resumed : ((new source preferences service).calls (n + 1)).mode =
              .quoted form opening [] := by rw [after, reaches.lexer_eq, mode_eq]
          have forward : k ≤ ((new source preferences service).calls (n + 1)).position.offset := by
            rw [after, reaches.lexer_eq, ← offset_eq]
            exact offset_calls inside 1
          refine .literal (.resumed within (reaches.result_eq.trans he) stays (rest_eq ▸ raised)) ?_
            (.refl _) behind.rest_eq_drop rfl resumed
          omega

/-- The delimiter of a literal stands where it was opened. -/
theorem Within.delimiter {form : Quoted} {opening : Position}
    (h : Within (new source preferences service) n form opening k) :
    source[opening.offset]? = some form.delimiter := by
  induction h with
  | @opened n form gap s opening hm rest_eq padding opens opening_eq =>
    obtain ⟨before, behind⟩ := behind_calls source preferences service n
    have offset_eq : opening.offset = (before ++ gap).length := by
      rw [opening_eq, Position.offset_advanceBytes, behind.offset_eq, List.length_append]
    have split : source = (before ++ gap) ++ form.delimiter :: s := by
      rw [List.append_assoc, ← rest_eq]
      exact behind.source_eq
    rw [offset_eq, split, List.getElem?_append_right (Nat.le_refl _), Nat.sub_self]
    rfl
  | resumed _ _ _ _ ih => exact ih

/-- The source has ended, and the next answer says so. -/
def Finished (source : List UInt8) (lx : Lexer) : Prop :=
  lx.mode = .initial ∧ lx.next.result = .ok (Token.atEnd (Position.start.advanceBytes source))

theorem finished_calls (hm : ((new source preferences service).calls n).mode = .initial)
    (hrest : ((new source preferences service).calls n).rest = []) :
    Finished source ((new source preferences service).calls n) := by
  obtain ⟨before, behind⟩ := behind_calls source preferences service n
  have whole := behind.source_eq
  rw [hrest, List.append_nil] at whole
  refine ⟨hm, ?_⟩
  rw [next_of_end hm hrest, behind.position_eq, whole]

theorem error_within (hstay : preferences.resetModeOnError = false) {e : LexError}
    (he : ((new source preferences service).calls n).next.result = .error e)
    (stays : e.fault.staysOpen = true) :
    let run := new source preferences service
    ∃ form opening k, Within run n form opening k ∧
      (¬ RaisedAtEnd form (source.drop k) e.fault →
        (run.calls (n + 1)).mode = .quoted form opening [] ∧
          Ends (run.calls (n + 1)) form opening) ∧
      (RaisedAtEnd form (source.drop k) e.fault → Finished source (run.calls (n + 1))) := by
  intro run
  have after := calls_succ n run
  cases (literal_calls hstay n : Call run n) with
  | token _ answers => cases he.symm.trans answers.result_eq
  | error complete _ answers =>
    cases he.symm.trans answers.result_eq
    rw [complete] at stays
    cases stays
  | @literal form opening k m inside within _ reaches rest_eq _ hinside =>
    have inside_error := reaches.result_eq.symm.trans he
    have drop_eq : inside.rest = source.drop k := rest_eq
    refine ⟨form, opening, k, within, ?_⟩
    rw [← drop_eq]
    cases (ends_of_quoted hinside).leaves (reaches.stays hstay) with
    | initial mode_eq ended =>
      obtain ⟨raised, rest_nil⟩ := ended e inside_error stays
      rw [← reaches.lexer_eq, ← after] at mode_eq rest_nil
      exact ⟨fun other => absurd raised other, fun _ => finished_calls mode_eq rest_nil⟩
    | inside mode_eq other _ raised =>
      cases inside_error.symm.trans other
      rw [← reaches.lexer_eq, ← after] at mode_eq
      exact ⟨fun _ => ⟨mode_eq, ends_of_quoted mode_eq⟩, fun other => absurd other raised⟩

theorem finished_of_comment (hstay : preferences.resetModeOnError = false) {e : LexError}
    (he : ((new source preferences service).calls n).next.result = .error e)
    (hfault : e.fault = .unterminatedComment) :
    Finished source ((new source preferences service).calls (n + 1)) := by
  have after := calls_succ n (new source preferences service)
  cases literal_calls hstay n with
  | token _ answers => cases he.symm.trans answers.result_eq
  | error _ ended answers =>
    cases he.symm.trans answers.result_eq
    exact finished_calls (after ▸ answers.mode_eq) (after ▸ ended hfault)
  | @literal form _ _ _ _ _ _ reaches _ _ hinside =>
    -- No fault of a literal is that of a comment.
    have inside_error := reaches.result_eq.symm.trans he
    cases ends_of_quoted hinside with
    | closed _ _ _ answers => cases inside_error.symm.trans answers.result_eq
    | tooLong _ _ _ answers | misflagged _ _ _ _ answers =>
      cases inside_error.symm.trans answers.result_eq
      cases hfault
    | @interrupted _ _ _ fault _ _ interrupts answers =>
      cases inside_error.symm.trans answers.result_eq
      have stays := interrupts.staysOpen
      rw [show fault = .unterminatedComment from hfault] at stays
      cases stays
    | exhausted _ _ _ answers =>
      cases inside_error.symm.trans answers.result_eq
      cases form <;> cases hfault

theorem token_within (hstay : preferences.resetModeOnError = false) {t : Token}
    (ht : ((new source preferences service).calls n).next.result = .ok t)
    (hkind : t.kind.isQuoted = true) :
    let run := new source preferences service
    ∃ form opening k content ending rest modifiers, Within run n form opening k ∧
      k = max (opening.offset + 1) (run.calls n).position.offset ∧
      form.Splits (source.drop k) content (ending ++ rest) ∧ Closes rest form ending modifiers ∧
      t = Token.ofSpan (.literal (Piece.finish form content modifiers).1)
        (Piece.finish form content modifiers).2
        { start := opening, stop := (run.calls (n + 1)).position } := by
  intro run
  cases (literal_calls hstay n : Call run n) with
  | token other answers =>
    cases ht.symm.trans answers.result_eq
    rw [other] at hkind
    cases hkind
  | error _ _ answers => cases ht.symm.trans answers.result_eq
  | @literal form opening k m inside within start reaches rest_eq _ hinside =>
    have inside_token := reaches.result_eq.symm.trans ht
    cases ends_of_quoted hinside with
    | tooLong _ _ _ answers | misflagged _ _ _ _ answers | interrupted _ _ _ answers
    | exhausted _ _ _ answers =>
      cases inside_token.symm.trans answers.result_eq
    | @closed content ending rest modifiers splits _ closes answers =>
      have stop : (run.calls (n + 1)).position =
          inside.position.advanceBytes (content ++ ending) := by
        have split : inside.rest = (content ++ ending) ++ rest := by
          rw [List.append_assoc]
          exact splits.eq_append
        rw [calls_succ, reaches.lexer_eq, (answers.consumes.append split).2]
      rw [rest_eq] at splits
      refine ⟨form, opening, k, content, ending, rest, modifiers, within, start, splits, closes, ?_⟩
      rw [stop]
      exact Except.ok.inj (inside_token.symm.trans answers.result_eq)

end Run

/-- A run without a reset.  An error inside a literal that is not raised at the end
of the source leaves the lexer in that literal, and the next call reads on in it.
At the end of the source the lexer is outside again and the next answer is the end
token.  A string or a regular expression spans from the delimiter its literal was
opened by, and its content is the source from behind that delimiter or from where
the last error has left the cursor, whichever is later, to the closing delimiter:
nothing that was taken up to an error is part of it.  The spans of the tokens are
in order and do not overlap. -/
theorem stuck_literals (source : List UInt8) {preferences : LexicalPreferences}
    (hstay : preferences.resetModeOnError = false) (service : PatternService) (n : Nat) :
    let run := new source preferences service
    let lx := run.calls n
    (∀ e, lx.next.result = .error e → e.fault.staysOpen = true →
      ∃ form opening k, Within run n form opening k ∧
        (¬ RaisedAtEnd form (source.drop k) e.fault →
          (run.calls (n + 1)).mode = .quoted form opening [] ∧
            Ends (run.calls (n + 1)) form opening) ∧
        (RaisedAtEnd form (source.drop k) e.fault → Finished source (run.calls (n + 1)))) ∧
    (∀ e, lx.next.result = .error e → e.fault = .unterminatedComment →
      Finished source (run.calls (n + 1))) ∧
    (∀ t, lx.next.result = .ok t → t.kind = .literal .textString ∨ t.kind = .literal .regex →
      ∃ form opening k content ending rest modifiers, Within run n form opening k ∧
        source[opening.offset]? = some form.delimiter ∧
        k = max (opening.offset + 1) lx.position.offset ∧
        (∀ m < n, ∀ e, (run.calls m).next.result = .error e →
          (run.calls (m + 1)).position.offset ≤ k) ∧
        form.Splits (source.drop k) content (ending ++ rest) ∧ Closes rest form ending modifiers ∧
        t = Token.ofSpan (.literal (Piece.finish form content modifiers).1)
          (Piece.finish form content modifiers).2
          { start := opening, stop := (run.calls (n + 1)).position }) ∧
    (∀ t, lx.next.result = .ok t → t.span.start.offset ≤ t.span.stop.offset ∧
      ∀ m < n, ∀ before, (run.calls m).next.result = .ok before →
        before.span.stop.offset ≤ t.span.start.offset) := by
  intro run lx
  refine ⟨fun e he stays => error_within hstay he stays, ?_, ?_, ?_⟩
  · intro e he hfault
    exact finished_of_comment hstay he hfault
  · intro t ht hkind
    have quoted : t.kind.isQuoted = true := by
      rcases hkind with hkind | hkind <;> rw [hkind] <;> rfl
    obtain ⟨form, opening, k, content, ending, rest, modifiers, within, start, found⟩ :=
      token_within hstay ht quoted
    refine ⟨form, opening, k, content, ending, rest, modifiers, within, within.delimiter, start,
      fun m hm e _ => ?_, found⟩
    obtain ⟨later, rfl⟩ := Nat.exists_eq_add_of_le hm
    have forward := offset_calls (run.calls (m + 1)) later
    rw [calls_calls] at forward
    exact start ▸ Nat.le_trans forward (Nat.le_max_right _ _)
  · intro t ht
    have past := past_new source preferences service
    exact ⟨((past.calls n).token ht).2.1, fun m hm before hbefore =>
      spans_ordered past hm hbefore ht⟩

/-- A string with two errors in it: a wrong escape, and a line that ends before the
closing quote. -/
theorem stuck_literals_resumed :
    let source := Ascii.bytes "x \"a\\qb\nc\" y"
    let stuck := { LexicalPreferences.builtin with resetModeOnError := false }
    let run := new source stuck Pattern.parse
    stuck.resetModeOnError = false ∧
      ∃ t form opening content ending rest, (run.calls 3).next.result = .ok t ∧
        t.kind = .literal .textString ∧ t.text? = some (Ascii.bytes "c") ∧
        t.span.start.offset = 2 ∧ Within run 3 form opening 8 ∧
        form.Splits (source.drop 8) content (ending ++ rest) := by
  intro source stuck run
  have stays : stuck.resetModeOnError = false := rfl
  have answer : ((run.calls 3).next.result.toOption.map fun t =>
      (t.kind, t.text?, t.span.start.offset)) =
      some (.literal .textString, some (Ascii.bytes "c"), 2) := by decide +kernel
  have offset : (run.calls 3).position.offset = 8 := by decide +kernel
  cases hresult : (run.calls 3).next.result with
  | error e =>
    rw [hresult] at answer
    cases answer
  | ok t =>
    rw [hresult] at answer
    obtain ⟨kind, found⟩ := Prod.mk.inj (Option.some.inj answer)
    obtain ⟨text, start⟩ := Prod.mk.inj found
    obtain ⟨-, -, token, -⟩ := stuck_literals source stays Pattern.parse 3
    obtain ⟨form, opening, k, content, ending, rest, modifiers, within, -, k_eq, -, splits, -,
      token_eq⟩ := token t hresult (.inl kind)
    have opening_eq : opening.offset = 2 := by
      rw [token_eq] at start
      exact start
    obtain rfl : k = 8 := by
      rw [k_eq, opening_eq]
      exact congrArg (max 3) offset
    exact ⟨stays, t, form, opening, content, ending, rest, rfl, kind, text, start, within, splits⟩

end Lexer
end RuleLex
