/-
The span of a range of tokens.

The tokens of a stream are `Arranged`: their spans run forward over the source and none
begins before the one in front of it has ended.  A token of a literal may begin many calls
before the one that hands it out, so this is not a matter of one call; `Past` carries it
from call to call.  `arranged_replies` says so of every stream that any run of requests
hands out.

Where tokens are arranged, `spanRange?` covers a range of them, the text of its span is
the source from the first byte of the range to the last, and there is no overlap to find.
`spanRange_covers` has this together with the laws of `join` that it rests on.
-/
import RuleLex.Proofs.Lexer.Requests
import RuleLex.Proofs.Lexer.Stuck
import RuleLex.Proofs.Source.Span

namespace RuleLex

/-- The tokens stand in the order of their text. -/
structure Arranged (source : List UInt8) (tokens : List Token) : Prop where
  within : ∀ t ∈ tokens, t.span.Within source
  ordered : tokens.Pairwise fun t u => t.span.stop.offset ≤ u.span.start.offset

namespace Arranged

variable {source : List UInt8} {tokens : List Token} {i j k : Nat}

theorem within_get (h : Arranged source tokens) (hi : i < tokens.length) :
    tokens[i].span.Within source :=
  h.within _ (List.getElem_mem hi)

theorem stop_le_start (h : Arranged source tokens) (hij : i < j) (hj : j < tokens.length) :
    tokens[i].span.stop.offset ≤ tokens[j].span.start.offset :=
  List.pairwise_iff_getElem.1 h.ordered i j _ hj hij

theorem start_le (h : Arranged source tokens) (hij : i ≤ j) (hj : j < tokens.length) :
    tokens[i].span.start.offset ≤ tokens[j].span.start.offset := by
  rcases Nat.eq_or_lt_of_le hij with rfl | hlt
  · exact Nat.le_refl _
  · exact Nat.le_trans (h.within_get _).forward (h.stop_le_start hlt hj)

theorem stop_le (h : Arranged source tokens) (hij : i ≤ j) (hj : j < tokens.length) :
    tokens[i].span.stop.offset ≤ tokens[j].span.stop.offset := by
  rcases Nat.eq_or_lt_of_le hij with rfl | hlt
  · exact Nat.le_refl _
  · exact Nat.le_trans (h.stop_le_start hlt hj) (h.within_get hj).forward

theorem join_eq (h : Arranged source tokens) (hij : i ≤ j) (hj : j < tokens.length) :
    tokens[i].span.join tokens[j].span =
      { start := tokens[i].span.start, stop := tokens[j].span.stop } :=
  Span.join_of_le (h.within_get _).toOn (h.within_get hj).toOn (h.start_le hij hj)
    (h.stop_le hij hj)

/-- The span of two tokens covers the tokens between them. -/
theorem covers (h : Arranged source tokens) (hik : i ≤ k) (hkj : k ≤ j)
    (hj : j < tokens.length) : (tokens[i].span.join tokens[j].span).Covers tokens[k].span := by
  rw [h.join_eq (Nat.le_trans hik hkj) hj]
  exact ⟨h.start_le hik (Nat.lt_of_le_of_lt hkj hj), h.stop_le hkj hj⟩

theorem firstOverlap_eq_none (h : Arranged source tokens) :
    TokenStream.firstOverlap? tokens = none := by
  have ordered := h.ordered
  clear h
  fun_induction TokenStream.firstOverlap? tokens with
  | case1 | case2 => rfl
  | case3 t u rest overlap =>
    have apart := (List.pairwise_cons.1 ordered).1 u (List.mem_cons_self ..)
    omega
  | case4 t u rest _ ih => exact ih (List.pairwise_cons.1 ordered).2

end Arranged

namespace TokenStream

theorem spanRange_eq {tokens : List Token} {i j : Nat} (hi : i < tokens.length)
    (hj : j < tokens.length) :
    (ofList tokens).spanRange? i j = some (tokens[i].span.join tokens[j].span) := by
  have span {n : Nat} (hn : n < tokens.length) :
      (ofList tokens).spanAt? n = some tokens[n].span := by
    rw [spanAt?, tokens_ofList, List.getElem?_eq_getElem hn, Option.map_some]
  rw [spanRange?, span hi, span hj]

end TokenStream

/-! ## The tokens of a run -/

namespace Lexer

/-- The lexer is over the source, and open at a place of the source that is not ahead of
it. -/
structure Over (source : List UInt8) (lx : Lexer) : Prop where
  behind : ∃ before, Behind source lx.service lx.preferences before lx
  opening : ∀ p, lx.mode.opening? = some p → p.On source
  past : Past 0 lx

variable {source : List UInt8} {lx : Lexer} {tokens : List Token} {k : Nat}

theorem over_new (source : List UInt8) (preferences : LexicalPreferences)
    (service : PatternService) : Over source (new source preferences service) :=
  ⟨⟨[], behind_new source preferences service⟩, nofun, past_new source preferences service⟩

theorem Over.located (h : Over source lx) : lx.next.Located source := by
  obtain ⟨before, hbehind⟩ := h.behind
  exact hbehind.located_nextFrom h.opening [] nofun

theorem Over.next (h : Over source lx) : Over source lx.next.lexer := by
  obtain ⟨before, hbehind⟩ := h.behind
  obtain ⟨later, hlater⟩ := hbehind.nextFrom []
  refine ⟨⟨later, ?_⟩, h.located.opening, h.past.nextFrom []⟩
  exact ⟨hlater.source_eq, hlater.position_eq, rfl, rfl⟩

theorem Over.mark (h : Over source lx) (b : Bool) : Over source { lx with finished := b } := by
  obtain ⟨before, hbehind⟩ := h.behind
  exact ⟨⟨before, hbehind.source_eq, hbehind.position_eq, rfl, rfl⟩, h.opening,
    h.past.position, h.past.opening⟩

/-- A token that is handed out is a span of the source and past what was handed out. -/
theorem Over.token (h : Over source lx) (hpast : Past k lx) {t : Token}
    (ht : lx.next.result = .ok t) :
    t.span.Within source ∧ k ≤ t.span.start.offset ∧ Past t.span.stop.offset lx.next.lexer := by
  obtain ⟨later, forward, passed⟩ := hpast.token ht
  exact ⟨⟨h.located.token t ht, forward⟩, later, passed⟩

/-- The tokens of a source are arranged, past what was handed out before them. -/
theorem Over.arranged (h : Over source lx) (hpast : Past k lx)
    (ht : lx.tokenize.result = .ok tokens) :
    Arranged source tokens ∧ ∀ t ∈ tokens, k ≤ t.span.start.offset := by
  -- By the calls up to the end token; `k` is where the tokens handed out before stop.
  fun_induction untilError lx generalizing k tokens with
  | case1 lx e hresult =>
    rw [tokenize_of_error hresult] at ht
    cases ht
  | case2 lx t hresult hend =>
    rw [tokenize_of_end hresult hend] at ht
    cases ht
    obtain ⟨within, later, -⟩ := h.token hpast hresult
    exact ⟨⟨by simpa using within, List.pairwise_singleton _ _⟩, by simpa using later⟩
  | case3 lx t hresult hend ih =>
    rw [tokenize_of_token hresult (Bool.eq_false_iff.2 hend)] at ht
    obtain ⟨within, later, passed⟩ := h.token hpast hresult
    cases hrest : lx.next.lexer.tokenize.result with
    | error e =>
      rw [hrest] at ht
      cases ht
    | ok rest =>
      rw [hrest] at ht
      cases ht
      obtain ⟨arranged, behind⟩ := ih h.next passed hrest
      refine ⟨⟨List.forall_mem_cons.2 ⟨within, arranged.within⟩,
        List.pairwise_cons.2 ⟨behind, arranged.ordered⟩⟩,
        List.forall_mem_cons.2 ⟨later, fun u hu => ?_⟩⟩
      exact Nat.le_trans later (Nat.le_trans within.forward (behind u hu))

/-- A reply is what comes of some request after some others. -/
theorem exists_request {requests : List Request} {reply : Reply}
    (h : reply ∈ lx.replies requests) :
    ∃ before r, reply = ((lx.serveAll before).serve r).reply := by
  induction requests generalizing lx with
  | nil => cases h
  | cons r requests ih =>
    rcases List.mem_cons.1 h with rfl | hlater
    · exact ⟨[], r, rfl⟩
    · obtain ⟨before, later, rfl⟩ := ih hlater
      exact ⟨r :: before, later, rfl⟩

theorem tokenize_of_reply {r : Request} (h : (lx.serve r).reply = .all (.ok tokens)) :
    lx.tokenize.result = .ok tokens := by
  cases r with
  | next => cases h
  | item =>
    rw [serve] at h
    split at h <;> cases h
  | all => exact Reply.all.inj h

/-- Whatever is asked of a lexer in between, the streams it hands out are arranged. -/
theorem arranged_replies {preferences : LexicalPreferences} {service : PatternService}
    {requests : List Request}
    (h : Reply.all (.ok tokens) ∈ (new source preferences service).replies requests) :
    Arranged source tokens := by
  obtain ⟨before, r, hreply⟩ := exists_request h
  have asked := (asked_keeps (Q := Over source) (fun _ hl => hl.next) (fun _ b hl => hl.mark b)
    (over_new source preferences service) before).2
  exact (asked.arranged asked.past (tokenize_of_reply hreply.symm)).1

end Lexer

/-- The spans of a source have a least span that covers two of them, `join`, and it is
commutative, associative and idempotent.  So in every stream of tokens that a run over the
source hands out the span of a range, asked for from either end, runs from the start of its
first token to the stop of its last, covers all between them and has the text of the source
from one to the other; and no two tokens overlap. -/
theorem spanRange_covers (source : List UInt8) :
    (∀ a b c : Span, a.Within source → b.Within source → c.Within source →
      (a.join b).Within source ∧ a.join b = b.join a ∧
        (a.join b).join c = a.join (b.join c) ∧ a.join a = a ∧
        (a.join b).Covers a ∧ (a.join b).Covers b ∧
        (c.Covers a → c.Covers b → c.Covers (a.join b))) ∧
    ∀ (preferences : LexicalPreferences) (service : PatternService) (requests : List Request)
      (tokens : List Token),
      Reply.all (.ok tokens) ∈ (Lexer.new source preferences service).replies requests →
      (TokenStream.ofList tokens).overlap? = none ∧
      ∀ (i j : Nat) (_ : i ≤ j) (_ : j < tokens.length), ∃ s,
        (TokenStream.ofList tokens).spanRange? i j = some s ∧
        (TokenStream.ofList tokens).spanRange? j i = some s ∧
        s.start = tokens[i].span.start ∧ s.stop = tokens[j].span.stop ∧
        (∀ (k : Nat) (_ : i ≤ k) (_ : k ≤ j), s.Covers tokens[k].span) ∧
        ∃ before text after, source = before ++ text ++ after ∧
          before.length = tokens[i].span.start.offset ∧
          (before ++ text).length = tokens[j].span.stop.offset ∧ s.slice? source = some text := by
  constructor
  · intro a b c ha hb hc
    exact ⟨ha.join hb, Span.join_comm ha hb, Span.join_assoc ha hb hc, Span.join_self ha,
      Span.covers_join_left a b, Span.covers_join_right a b, Span.Covers.join⟩
  · intro preferences service requests tokens hreply
    have arranged := Lexer.arranged_replies hreply
    refine ⟨arranged.firstOverlap_eq_none, fun i j hij hj => ?_⟩
    have first := arranged.within_get (Nat.lt_of_le_of_lt hij hj)
    have last := arranged.within_get hj
    have join_eq := arranged.join_eq hij hj
    obtain ⟨before, text, after, hsource, hbefore, hstop, hslice⟩ := (first.join last).exists_text
    rw [join_eq] at hbefore hstop
    refine ⟨tokens[i].span.join tokens[j].span, TokenStream.spanRange_eq _ hj, ?_, by rw [join_eq],
      by rw [join_eq], fun k hik hkj => arranged.covers hik hkj hj,
      before, text, after, hsource, hbefore, hstop, hslice⟩
    rw [TokenStream.spanRange_eq hj (Nat.lt_of_le_of_lt hij hj), Span.join_comm last first]

/-- A regular expression that goes on behind an error on its first line, a name and the
end of the source, asked for from the end. -/
theorem spanRange_covers_resumed :
    let source := Ascii.bytes "/a\nb/ x\n"
    let stuck := { LexicalPreferences.builtin with resetModeOnError := false }
    let line : Span := { start := .start, stop := Position.start.advanceBytes (source.take 3) }
    let rest : Span :=
      { start := Position.start.advanceBytes (source.take 3),
        stop := Position.start.advanceBytes source }
    line.join rest = rest.join line ∧
      ∃ tokens s, Reply.all (.ok tokens) ∈
          (Lexer.new source stuck Pattern.parse).replies [.next, .all] ∧
        tokens.map (fun t => (t.span.start.offset, t.span.stop.offset)) =
          [(0, 5), (6, 7), (8, 8)] ∧
        (TokenStream.ofList tokens).overlap? = none ∧
        (TokenStream.ofList tokens).spanRange? 2 0 = some s ∧
        s.slice? source = some source := by
  intro source stuck line rest
  let after := (Lexer.new source stuck Pattern.parse).next.lexer
  have spans : (after.tokenize.result.toOption.map fun tokens =>
      tokens.map fun t => (t.span.start.offset, t.span.stop.offset)) =
      some [(0, 5), (6, 7), (8, 8)] := by decide +kernel
  have within_line : line.Within source :=
    ⟨⟨Position.on_iff.2 ⟨[], List.nil_prefix, rfl⟩,
      Position.on_iff.2 ⟨_, List.take_prefix 3 source, rfl⟩⟩, by decide⟩
  have within_rest : rest.Within source :=
    ⟨⟨Position.on_iff.2 ⟨_, List.take_prefix 3 source, rfl⟩,
      Position.on_iff.2 ⟨_, List.prefix_refl source, rfl⟩⟩, by decide⟩
  obtain ⟨laws, streams⟩ := spanRange_covers source
  have commutes := (laws line rest line within_line within_rest within_line).2.1
  cases hresult : after.tokenize.result with
  | error e =>
    rw [hresult] at spans
    cases spans
  | ok tokens =>
    rw [hresult] at spans
    have offsets : tokens.map (fun t => (t.span.start.offset, t.span.stop.offset)) =
        [(0, 5), (6, 7), (8, 8)] := Option.some.inj spans
    have length : tokens.length = 3 := by simpa using congrArg List.length offsets
    have reply : Reply.all (.ok tokens) ∈
        (Lexer.new source stuck Pattern.parse).replies [.next, .all] := by
      rw [← hresult]
      exact List.mem_cons_of_mem _ (List.mem_cons_self ..)
    obtain ⟨ordered, ranges⟩ := streams stuck Pattern.parse [.next, .all] tokens reply
    obtain ⟨s, -, range, -, -, -, before, text, behind, hsource, hbefore, hstop, hslice⟩ :=
      ranges 0 2 (by decide) (by omega)
    have starts : tokens[0].span.start.offset = 0 := by
      have := congrArg (fun l => l[0]?.map Prod.fst) offsets
      simpa [length] using this
    have stops : tokens[2].span.stop.offset = 8 := by
      have := congrArg (fun l => l[2]?.map Prod.snd) offsets
      simpa [length] using this
    obtain rfl : before = [] := List.length_eq_zero_iff.1 (hbefore.trans starts)
    obtain rfl : behind = [] := by
      have total := congrArg List.length hsource
      have size : source.length = 8 := by decide
      rw [List.length_append, hstop, stops, size] at total
      exact List.length_eq_zero_iff.1 (by omega)
    rw [List.append_nil, List.nil_append] at hsource
    rw [← hsource] at hslice
    exact ⟨commutes, tokens, s, reply, offsets, ordered, range, hslice⟩

end RuleLex
