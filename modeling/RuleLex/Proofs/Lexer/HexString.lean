/-
Byte patterns in rule source.

Where a byte pattern starts the lexer takes the head that the recognizer
delimits and hands it to the service.  Over a source that begins with a text
that recognizer and service both accept, the first token is that text,
`next_hexString`; so a written pattern and any text that the reader takes as a
pattern come back from the lexer as they were.
-/
import RuleLex.Proofs.Lexer.Lossless
import RuleLex.Proofs.Pattern.Agreement

namespace RuleLex
namespace Lexer

open Pattern (Element WellFormed Braced)

/-- The token of a byte pattern that a source begins with. -/
def leadingPattern (text : List UInt8) (es : List Element) : Token :=
  Token.ofSpan (.literal .hexString) (.hexPattern es)
    { start := Position.start, stop := Position.start.advanceBytes text }

theorem slice_leadingPattern (text rest : List UInt8) (es : List Element) :
    (leadingPattern text es).span.slice? (text ++ rest) = some text := by
  have cut := Span.slice_append [] text rest
  rw [List.nil_append, Position.advanceBytes_nil] at cut
  exact cut

/-! ## One step -/

theorem first_hexPattern {s : List UInt8} {n : Nat} (h : Pattern.extent? s = some n) :
    Lexeme.first? s = some (.hexPattern, n) := by
  cases s with
  | nil => cases h
  | cons b rest =>
    have opening : b = Ascii.openBrace := by
      by_contra hb
      rw [Pattern.extent?, if_neg hb] at h
      cases h
    subst opening
    have delimited : Lexeme.ofBrace rest = (.hexPattern, n) := by rw [Lexeme.ofBrace, h]
    exact congrArg some delimited

/-- A pattern that the service reads is the token of the step. -/
theorem step_hexString {lx : Lexer} {n : Nat} {es : List Element} (hm : lx.mode = .initial)
    (h : Pattern.extent? lx.rest = some n) (hread : lx.service (lx.rest.take n) = .ok es) :
    lx.step = .answer { lx.consume n with consulted := lx.rest.take n :: lx.consulted }
      (.ok (tokenBetween lx.position (lx.consume n) (.literal .hexString) (.hexPattern es)))
      [] := by
  have effect := effect_step hm (first_hexPattern h)
  generalize lx.step = step at effect
  cases effect with
  | hexString hread' =>
    rw [hread] at hread'
    cases hread'
    rfl
  | hexRefused hread' =>
    rw [hread] at hread'
    cases hread'

theorem next_hexString {text rest : List UInt8} {es : List Element}
    (preferences : LexicalPreferences) (service : PatternService)
    (h : Pattern.extent? (text ++ rest) = some text.length) (hread : service text = .ok es) :
    let a := (new (text ++ rest) preferences service).next
    a.result = .ok (leadingPattern text es) ∧ a.lexer.mode = .initial ∧ a.lexer.rest = rest ∧
      a.lexer.position = Position.start.advanceBytes text := by
  let lx := new (text ++ rest) preferences service
  have head : lx.rest.take text.length = text := List.take_left
  have taken : lx.service (lx.rest.take text.length) = .ok es := by rw [head]; exact hread
  have step := step_hexString rfl h taken
  have answer : lx.next = _ := nextFrom_of_answer step []
  have place : (lx.consume text.length).position = Position.start.advanceBytes text := by
    rw [position_consume, head]
    rfl
  intro a
  have ha : a = lx.next := rfl
  rw [ha, answer, result_settle]
  refine ⟨?_, rfl, List.drop_left, place⟩
  rw [tokenBetween, place]
  rfl

theorem next_of_end {lx : Lexer} (hm : lx.mode = .initial) (hrest : lx.rest = []) :
    lx.next.result = .ok (Token.atEnd lx.position) := by
  have step : lx.step = .answer lx (.ok (Token.atEnd lx.position)) [] := by
    rw [Lexer.step, hm]
    simp only [stepInitial, hrest, Lexeme.first?]
    rfl
  rw [next, nextFrom_of_answer step, result_settle]

/-! ## Patterns over the default service -/

/-- A written pattern is read back, by the reader alone and by the lexer, which
takes it and no byte of what is behind it.  All that the reader hands out can be
written that way. -/
theorem render_read_back :
    (∀ es, WellFormed es → ∀ (rest : List UInt8) (preferences : LexicalPreferences),
      let text := Ascii.bytes (Pattern.render es)
      let source := text ++ rest
      (∀ c ∈ (Pattern.render es).toList, c.toNat < 128) ∧
      Pattern.parse text = .ok es ∧
      Pattern.extent? source = some text.length ∧
      (new source preferences Pattern.parse).next.result = .ok (leadingPattern text es) ∧
      (leadingPattern text es).span.slice? source = some text) ∧
    ∀ text es, Pattern.parse text = .ok es → WellFormed es := by
  refine ⟨fun es h rest preferences => ?_, fun text es h => Pattern.wellFormed_of_parse h⟩
  intro text source
  have read : Pattern.parse text = .ok es := Pattern.parse_render h
  have braced : Braced text := by
    have whole := Pattern.bytes_render es
    show Braced (Ascii.bytes (Pattern.render es))
    rw [whole]
    exact Pattern.braced_of_parse (by rw [← whole]; exact read)
  have extent : Pattern.extent? source = some text.length :=
    Pattern.extent_append braced (Pattern.slash_not_mem_render es) rest
  exact ⟨Pattern.render_ascii es, read, extent, (next_hexString preferences _ extent read).1,
    slice_leadingPattern text rest es⟩

theorem render_read_back_nested :
    let es : List Element :=
      [.byte (.literal 4) .wildcard, .jump 2 none,
        .alternation
          [[.byte (.literal 0) (.literal 1)], [.byte .wildcard .wildcard, .jump 3 (some 3)]]]
    let text := Ascii.bytes "\x7b 4? [2-] (01 | ?? [3]) \x7d"
    WellFormed es ∧ Pattern.parse text = .ok es ∧
      (new (text ++ Ascii.bytes " // \x7d") LexicalPreferences.builtin Pattern.parse).next.result =
        .ok (leadingPattern text es) := by
  intro es text
  have wellFormed : WellFormed es := by
    refine ⟨by simp [es], ?_, by simp [es, Element.isJump], by simp [es, Element.isJump],
      by decide⟩
    simp [es, Pattern.Sound, Element.Sound, Pattern.SoundAlternatives, Pattern.Nibble.IsDigit]
  have written : Ascii.bytes (Pattern.render es) = text := by decide +kernel
  obtain ⟨-, read, -, token, -⟩ :=
    render_read_back.1 es wellFormed (Ascii.bytes " // \x7d") LexicalPreferences.builtin
  rw [written] at read token
  exact ⟨wellFormed, read, token⟩

/-- A text in braces that the reader accepts is a pattern to the recognizer too,
and the whole of a source that is nothing else.  Without slashes it is the first
token of every source that begins with it. -/
theorem hexString_of_parse {text : List UInt8} {es : List Element}
    (hopen : text.head? = some Ascii.openBrace) (hclose : text.getLast? = some Ascii.closeBrace)
    (h : Pattern.parse text = .ok es) :
    Pattern.extent? text = some text.length ∧
      (∀ preferences : LexicalPreferences,
        let a := (new text preferences Pattern.parse).next
        a.result = .ok (leadingPattern text es) ∧
        (leadingPattern text es).span.slice? text = some text ∧
        a.lexer.next.result = .ok (Token.atEnd (Position.start.advanceBytes text))) ∧
      (Ascii.slash ∉ text → ∀ (rest : List UInt8) (preferences : LexicalPreferences),
        (new (text ++ rest) preferences Pattern.parse).next.result =
          .ok (leadingPattern text es)) := by
  have braced : Braced text := by
    obtain ⟨tail, rfl⟩ := List.head?_eq_some_iff.1 hopen
    obtain ⟨inner, hinner⟩ := List.getLast?_eq_some_iff.1 hclose
    cases inner with
    | nil => cases hinner
    | cons b inner =>
      obtain ⟨rfl, rfl⟩ := List.cons.inj hinner
      exact Pattern.braced_of_parse h
  have extent : Pattern.extent? text = some text.length := Pattern.extent_of_braced braced
  refine ⟨extent, fun preferences => ?_, fun hslash rest preferences => ?_⟩
  · have alone : Pattern.extent? (text ++ []) = some text.length := by
      rw [List.append_nil]
      exact extent
    have next := next_hexString preferences Pattern.parse alone h
    have slice := slice_leadingPattern text [] es
    rw [List.append_nil] at next slice
    obtain ⟨result, mode, rest, position⟩ := next
    refine ⟨result, slice, ?_⟩
    rw [next_of_end mode rest, position]
  · have longer := Pattern.extent_append braced hslash rest
    exact (next_hexString preferences Pattern.parse longer h).1

theorem hexString_of_parse_comment :
    let text := Ascii.bytes "\x7b 4? // \x7d\n[2] 0A /* \x7d */ \x7d"
    let es : List Element :=
      [.byte (.literal 4) .wildcard, .jump 2 (some 2), .byte (.literal 0) (.literal 10)]
    let plain := Ascii.bytes "\x7b 4? \x7d"
    Pattern.parse text = .ok es ∧ Pattern.extent? text = some text.length ∧
      Pattern.parse plain = .ok [.byte (.literal 4) .wildcard] ∧
      (new (plain ++ Ascii.bytes "// \x7d") LexicalPreferences.builtin Pattern.parse).next.result =
        .ok (leadingPattern plain [.byte (.literal 4) .wildcard]) := by
  intro text es plain
  have read : Pattern.parse text = .ok es := by with_unfolding_all rfl
  have readPlain : Pattern.parse plain = .ok [.byte (.literal 4) .wildcard] := by
    with_unfolding_all rfl
  have commented := hexString_of_parse (by decide) (by decide) read
  have followed := hexString_of_parse (by decide) (by decide) readPlain
  exact ⟨read, commented.1, readPlain, followed.2.2 (by decide) _ _⟩

end Lexer
end RuleLex
