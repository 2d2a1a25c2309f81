/-
The limits of what a lexer hands out.

Names, literals, numbers and byte patterns have limits, and each is checked in a
place of its own: a name where its lexeme is read, a number where it is worked
out, a literal whenever a piece is added to it, a byte pattern in the reader.
`Allowed` puts the limits together, kind by kind, and `tokens_within_limits` says
that no token gets past them.

What an open literal has gathered is never longer than the limit, also between
two calls of a lexer that stays in a literal behind an error; that is all the
invariant the proof needs.
-/
import RuleLex.Proofs.Lexer.Mode
import RuleLex.Proofs.Pattern.Render

namespace RuleLex

/-- A name without its sigil and without the star that stands for any ending. -/
def Naming.bare (text : List UInt8) : Naming → List UInt8
  | .integerFunction | .identifier => text
  | .stringIdentifier | .stringCount | .stringOffset | .stringLength => text.tail
  | .stringIdentifierWithWildcard => text.tail.dropLast

namespace Lexer

/-- The kinds and payloads within the limits.  What a service other than the
stock reader makes of a byte pattern is its own affair. -/
inductive Allowed (service : PatternService) : TokenKind → TokenValue → Prop
  | keyword (k : Keyword) : Allowed service (.keyword k) .none
  | operator (op : Operator) : Allowed service (.operator op) .none
  | symbol (b : UInt8) : Allowed service (.symbol b) .none
  | eof : Allowed service .eof .none
  | naming {n : Naming} {text : List UInt8} (spelled : NamingText text n)
    (short : (n.bare text).length ≤ limits.maxIdentifierLength) :
    Allowed service (.naming n) (.text text)
  | textString {content : List UInt8} (short : content.length ≤ limits.maxLiteralSize) :
    Allowed service (.literal .textString) (.text content)
  | regex {pattern : List UInt8} {modifiers : Modifiers}
    (short : pattern.length ≤ limits.maxLiteralSize) :
    Allowed service (.literal .regex) (.regex pattern modifiers)
  | integer {v : Int64} (nonneg : 0 ≤ v.toInt) (bounded : v.toInt ≤ 0x7FFFFFFFFFFFFFFF) :
    Allowed service (.literal .integer) (.integer v)
  | float (v : Binary64) : Allowed service (.literal .float) (.float v)
  | hexString {elements : List Pattern.Element}
    (wellFormed : service = Pattern.parse → Pattern.WellFormed elements) :
    Allowed service (.literal .hexString) (.hexPattern elements)

end Lexer

/-! ## Names -/

namespace Lexeme

/-- A name is within the limit.  Other lexemes have none. -/
def Short : Lexeme → Prop
  | .token (.naming n) (.text text) => (n.bare text).length ≤ limits.maxIdentifierLength
  | _ => True

theorem ofWord_short (word : List UInt8) : (ofWord word).Short := by
  unfold ofWord
  split
  · trivial
  · split
    · trivial
    · rename_i fits
      have short : word.length ≤ limits.maxIdentifierLength := Nat.le_of_not_lt fits
      split
      · exact short
      · exact short

theorem bare_naming (sigil : UInt8) (name : List UInt8) :
    (naming sigil false).bare (sigil :: name) = name := by
  unfold naming
  split
  · rfl
  · split
    · rfl
    · split <;> rfl

theorem bare_starred (name : List UInt8) :
    (naming Ascii.dollar true).bare (Ascii.dollar :: name ++ [Ascii.star]) = name :=
  List.dropLast_concat

theorem ofSigil_short (sigil : UInt8) (rest : List UInt8) : (ofSigil sigil rest).1.Short := by
  simp only [ofSigil]
  split
  · trivial
  · rename_i fits
    have short := Nat.le_of_not_lt fits
    generalize rest.takeWhile Ascii.isWordByte = name at short ⊢
    cases hstar : sigil == Ascii.dollar && rest[name.length]? == some Ascii.star with
    | true =>
      obtain rfl := beq_iff_eq.1 (Bool.and_eq_true_iff.1 hstar).1
      simp only [Short, if_true, bare_starred]
      exact short
    | false =>
      simp only [Short, Bool.false_eq_true, if_false, List.append_nil, bare_naming]
      exact short

theorem ofPunctuation_short (b : UInt8) (rest : List UInt8) :
    (ofPunctuation b rest).1.Short := by
  unfold ofPunctuation
  split <;> trivial

theorem ofSlash_short (rest : List UInt8) : (ofSlash rest).1.Short := by
  unfold ofSlash
  split
  · trivial
  · split <;> trivial

theorem ofBrace_short (rest : List UInt8) : (ofBrace rest).1.Short := by
  unfold ofBrace
  split <;> trivial

theorem ofNumber_short (s : List UInt8) : (ofNumber s).1.Short := by
  unfold ofNumber
  split <;> trivial

theorem startingWith_short (b : UInt8) (rest : List UInt8) : (startingWith b rest).1.Short := by
  unfold startingWith
  split
  · trivial
  split
  · exact ofSlash_short rest
  split
  · trivial
  split
  · exact ofBrace_short rest
  split
  · exact ofNumber_short _
  split
  · exact ofWord_short _
  split
  · exact ofSigil_short b rest
  split
  · exact ofSigil_short b rest
  split
  · exact ofPunctuation_short b rest
  · trivial

theorem short_of_first {s : List UInt8} {lexeme : Lexeme} {n : Nat}
    (h : first? s = some (lexeme, n)) : lexeme.Short := by
  cases s with
  | nil => cases h
  | cons b rest =>
    have short := startingWith_short b rest
    rw [show startingWith b rest = (lexeme, n) from Option.some.inj h] at short
    exact short

end Lexeme

namespace Lexer

/-! ## Lexemes and literals -/

theorem allowed_of_evaluate (service : PatternService) {form : Number.Form} {text : List UInt8}
    {literal : Literal} {value : TokenValue} (hform : Number.FormText form text)
    (h : Number.evaluate form text = .ok (literal, value)) :
    Allowed service (.literal literal) value := by
  have literals := Number.literal_of_evaluate h
  cases Number.evaluate_spells service hform h with
  | integer _ value_eq =>
    rename_i n v _
    have bounded := v.toInt_le
    exact .integer (by omega) bounded
  | float => exact .float _
  | textString | regex | hexString => rcases literals with h | h <;> cases h

theorem allowed_of_first (service : PatternService) {s : List UInt8} {kind : TokenKind}
    {value : TokenValue} {n : Nat} (h : Lexeme.first? s = some (.token kind value, n)) :
    Allowed service kind value := by
  have short := Lexeme.short_of_first h
  cases munch_first h with
  | selected hselects yields =>
    have own := hselects.own
    cases yields with
    | operator => exact .operator _
    | keyword => exact .keyword _
    | naming => exact .naming own short
    | number hform hvalue => exact allowed_of_evaluate service hform hvalue
    | symbol => exact .symbol _

theorem allowed_of_finish (service : PatternService) (form : Quoted) {content : List UInt8}
    (modifiers : Modifiers) (h : content.length ≤ limits.maxLiteralSize) :
    Allowed service (.literal (Piece.finish form content modifiers).1)
      (Piece.finish form content modifiers).2 := by
  cases form with
  | string => exact .textString h
  | regex => exact .regex h

/-! ## Runs -/

/-- What an open literal has gathered is within the limit. -/
def Bounded (lx : Lexer) : Prop := lx.mode.gathered.length ≤ limits.maxLiteralSize

variable {lx after : Lexer}

theorem bounded_of_gathered (h : lx.mode.gathered = []) : Bounded lx := by
  rw [Bounded, h]
  exact Nat.zero_le _

theorem Bounded.step (h : Bounded lx) : Bounded lx.step.lexer := by
  have outcome := outcome_step lx
  generalize lx.step = step at outcome ⊢
  cases outcome with
  | finish | blank | lineComment | token | refused | hexString | hexRefused | drainComment =>
    exact h
  | content hm hfirst fits => exact fits
  | openComment | openLiteral | breakAndReset | breakAndStay | closing | badModifier | exhausted
  | closeComment | openAtEnd =>
    exact bounded_of_gathered rfl

theorem Bounded.allowed_answer (h : Bounded lx) {t : Token} {reports : List Log.Event}
    (hanswer : lx.step = .answer after (.ok t) reports) : Allowed lx.service t.kind t.value := by
  have outcome := outcome_step lx
  rw [hanswer] at outcome
  cases outcome with
  | finish => exact .eof
  | token hm hfirst => exact allowed_of_first lx.service hfirst
  | hexString hm hfirst hread =>
    refine .hexString fun hservice => ?_
    rw [hservice] at hread
    exact Pattern.wellFormed_of_parse hread
  | closing hm hfirst =>
    rw [Bounded, hm] at h
    exact allowed_of_finish lx.service _ _ h

theorem Bounded.allowed_nextFrom (h : Bounded lx) {t : Token} (reports : List Log.Event)
    (ht : (nextFrom reports lx).result = .ok t) : Allowed lx.service t.kind t.value := by
  fun_induction nextFrom reports lx with
  | case1 reports lx after new hstep ih =>
    have bounded := h.step
    obtain ⟨n, hn⟩ := consumes_step lx
    rw [hstep] at bounded hn
    rw [← hn.service_eq]
    exact ih bounded ht
  | case2 reports lx after result new hstep =>
    rw [result_settle] at ht
    subst ht
    exact h.allowed_answer hstep

/-- Over any source, with any preferences and after any number of calls, a token
is within the limits: its name has at most the length of a name, its content at
most the size of a literal, its integer is neither below zero nor above the
greatest of 64 bits, and the byte pattern that the stock reader made of it is well
formed. -/
theorem tokens_within_limits (source : List UInt8) (preferences : LexicalPreferences)
    (service : PatternService) (n : Nat) {t : Token}
    (h : ((new source preferences service).calls n).next.result = .ok t) :
    Allowed service t.kind t.value := by
  have settled := settled_calls source preferences service n
  have same : ((new source preferences service).calls n).service = service := service_calls n _
  have bounded : Bounded ((new source preferences service).calls n) := by
    cases settled with
    | initial hm => exact bounded_of_gathered (by rw [hm]; rfl)
    | inside hm => exact bounded_of_gathered (by rw [hm]; rfl)
  have allowed := bounded.allowed_nextFrom [] h
  rw [same] at allowed
  exact allowed

/-- A string that an unknown escape has broken off goes on in the next call, and
what is left of it is within the limits. -/
theorem tokens_within_limits_stuck :
    let source := Ascii.bytes "\"a\\qb\" $c* 4KB"
    let stuck := { LexicalPreferences.builtin with resetModeOnError := false }
    let lx := (new source stuck Pattern.parse).calls 1
    lx.mode.name = "InQuotedString" ∧
      ∃ t, lx.next.result = .ok t ∧ t.kind = .literal .textString ∧
        t.text? = some (Ascii.bytes "b") ∧ Allowed Pattern.parse t.kind t.value := by
  intro source stuck lx
  have answer : (lx.next.result.toOption.map fun t => (t.kind, t.text?)) =
      some (.literal .textString, some (Ascii.bytes "b")) := by decide +kernel
  refine ⟨by decide +kernel, ?_⟩
  cases hresult : lx.next.result with
  | error e =>
    rw [hresult] at answer
    cases answer
  | ok t =>
    rw [hresult] at answer
    obtain ⟨kind, text⟩ := Prod.mk.inj (Option.some.inj answer)
    exact ⟨t, rfl, kind, text, tokens_within_limits source stuck Pattern.parse 1 hresult⟩

end Lexer
end RuleLex
