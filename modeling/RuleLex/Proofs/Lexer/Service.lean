/-
What a service can change.

A lexer hands the text of every byte pattern to its service and goes on behind
it, whatever the service answers.  So lexers that differ in their service only
stay together: `service_independent` says that after any number of calls they
are at the same place and in the same mode, have handed over the same texts and
have given the same answers, but for the answers on byte patterns, each of which
is what the own service says.
-/
import RuleLex.Proofs.Lexer.Alike
import RuleLex.Proofs.Lexer.Munch

namespace RuleLex

/-- Behind `before` the recognizer sees a byte pattern, and `text` is all of it. -/
def Delimited (source before text : List UInt8) : Prop :=
  ∃ after, source = before ++ text ++ after ∧
    Pattern.extent? (text ++ after) = some text.length

/-- The stretch of a source that `text` takes behind `before`. -/
def Span.behind (before text : List UInt8) : Span where
  start := Position.start.advanceBytes before
  stop := Position.start.advanceBytes (before ++ text)

namespace Lexer

variable {source before : List UInt8} {service : PatternService}
variable {preferences : LexicalPreferences} {lx after : Lexer}

/-! ## Where patterns are found -/

/-- A lexer takes for a pattern what the recognizer delimits. -/
theorem extent_of_first {s : List UInt8} {n : Nat}
    (h : Lexeme.first? s = some (.hexPattern, n)) : Pattern.extent? s = some n := by
  cases munch_first h with
  | selected selects yields =>
    cases yields with
    | bytePattern =>
      obtain ⟨fits, -, longest⟩ := selects.longest
      exact Pattern.extent_of_isLongest
        ⟨fits, selects.own, fun m hm braced => longest m hm ⟨.bytePattern, braced⟩⟩

theorem head_of_delimited {text : List UInt8} (h : Delimited source before text) :
    text.head? = some Ascii.openBrace := by
  obtain ⟨after, -, extent⟩ := h
  obtain ⟨-, braced, -⟩ := Pattern.isLongest_of_extent extent
  rw [List.take_left] at braced
  cases text with
  | nil => exact absurd braced Pattern.not_braced_nil
  | cons b text => rw [(Pattern.braced_cons_iff.1 braced).1]; rfl

theorem slice_of_delimited {text : List UInt8} (h : Delimited source before text) :
    (Span.behind before text).slice? source = some text := by
  obtain ⟨after, rfl, -⟩ := h
  exact Span.slice_append before text after

theorem PatternAt.delimited {n : Nat} (h : PatternAt lx n after)
    (hbehind : Behind source service preferences before lx) :
    Delimited source before (lx.rest.take n) := by
  have extent := extent_of_first h.first_eq
  refine ⟨lx.rest.drop n, ?_, ?_⟩
  · rw [List.append_assoc, List.take_append_drop]
    exact hbehind.source_eq
  · rw [List.take_append_drop, List.length_take_of_le (Pattern.isLongest_of_extent extent).1]
    exact extent

theorem PatternAt.span_eq {n : Nat} (h : PatternAt lx n after)
    (hbehind : Behind source service preferences before lx) :
    { start := lx.position, stop := after.position } = Span.behind before (lx.rest.take n) := by
  rw [h.position_eq, hbehind.position_eq, Span.behind, Position.advanceBytes_append]

theorem Behind.goesOn (h : Behind source service preferences before lx)
    (hsteps : Relation.ReflTransGen GoesOn lx after) :
    ∃ before, Behind source service preferences before after := by
  induction hsteps with
  | refl => exact ⟨before, h⟩
  | tail _ hstep ih =>
    obtain ⟨before, hbehind⟩ := ih
    obtain ⟨reports, hstep⟩ := hstep
    obtain ⟨n, hn⟩ := consumes_step _
    rw [hstep] at hn
    exact ⟨_, hbehind.consumes hn⟩

/-! ## Runs -/

theorem delimited_calls (source : List UInt8) (preferences : LexicalPreferences)
    (service : PatternService) (n : Nat) :
    ∀ text ∈ ((new source preferences service).calls n).consulted,
      ∃ before, Delimited source before text := by
  induction n with
  | zero => exact nofun
  | succ n ih =>
    obtain ⟨before, hbehind⟩ := behind_calls source preferences service n
    rw [calls_succ]
    -- a lexer is alike to itself, so its own answers are of these forms too
    cases (Alike.refl ((new source preferences service).calls n)).nextFrom [] [] with
    | same h kept => rw [next, kept]; exact ih
    | broken own other kept => rw [next, kept]; exact ih
    | pattern h hsteps kept hfound =>
      obtain ⟨place, hplace⟩ := hbehind.goesOn hsteps
      rw [next, hfound.consulted_eq, kept]
      exact List.forall_mem_cons.2 ⟨⟨place, hfound.delimited hplace⟩, ih⟩

/-- Over the same source two services see the same texts, each of them a byte
pattern as the recognizer delimits it, and their lexers are at the same place of
the same line and in the same mode, with the same content so far, after every
call.  The answers of a call are equal, unless it has come to a byte pattern;
then each lexer answers over the span of the pattern what its own service says
of the text. -/
theorem service_independent (source : List UInt8) (preferences : LexicalPreferences)
    (first second : PatternService) (n : Nat) :
    let a := (new source preferences first).calls n
    let b := (new source preferences second).calls n
    (a.position = b.position ∧ a.line = b.line ∧ a.mode = b.mode ∧
      a.consultedTexts = b.consultedTexts) ∧
    (∀ text ∈ a.consultedTexts, text.head? = some Ascii.openBrace ∧
      ∃ before, Delimited source before text) ∧
    ((a.next.result = b.next.result ∧ a.next.lexer.consultedTexts = a.consultedTexts) ∨
      ∃ before text,
        let span := Span.behind before text
        Delimited source before text ∧
        span.slice? source = some text ∧
        a.next.lexer.consultedTexts = a.consultedTexts ++ [text] ∧
        a.next.lexer.position = span.stop ∧
        a.next.result = patternAnswer span (first text) ∧
        b.next.result = patternAnswer span (second text)) := by
  intro a b
  have alike : Alike a b := (alike_new source preferences preferences first second).calls rfl n
  obtain ⟨_, hfirst⟩ := behind_calls source preferences first n
  obtain ⟨_, hsecond⟩ := behind_calls source preferences second n
  refine ⟨⟨alike.position_eq, alike.line_eq, alike.mode_eq, ?_⟩, fun text htext => ?_, ?_⟩
  · rw [consultedTexts, consultedTexts, alike.consulted_eq]
  · obtain ⟨before, delimited⟩ :=
      delimited_calls source preferences first n text (List.mem_reverse.1 htext)
    exact ⟨head_of_delimited delimited, before, delimited⟩
  · cases alike.nextFrom [] [] with
    | same h kept result_eq =>
      exact .inl ⟨result_eq, congrArg List.reverse kept⟩
    | broken own other kept differ =>
      exact absurd (by rw [hfirst.preferences_eq, hsecond.preferences_eq]) differ
    | pattern h hsteps kept hfound own other =>
      obtain ⟨before, hbehind⟩ := hfirst.goesOn hsteps
      have delimited := hfound.delimited hbehind
      rw [hfound.span_eq hbehind] at own other
      rw [hfirst.service_eq] at own
      rw [hsecond.service_eq] at other
      refine .inr ⟨before, _, delimited, slice_of_delimited delimited, ?_, ?_, own, other⟩
      · rw [consultedTexts, consultedTexts, ← kept, ← List.reverse_cons]
        exact congrArg List.reverse hfound.consulted_eq
      · exact congrArg Span.stop (hfound.span_eq hbehind)

end Lexer
end RuleLex
