/-
How far a rejected lexeme goes.

A step outside literals and comments that answers an error has found a lexeme and
refused it.  `rejects_of_fault` says where the lexer stands then: behind the head
that the table of lexical rules selects, as it would with a token, or behind the
one byte that no rule describes.  There is one exception.  The length of a dollar
name is checked in front of its star, so a starred name over the limit is left at
the star, and `starred_name_splits` reads it as a token of its own.
-/
import RuleLex.Proofs.Lexer.Dispatch

namespace RuleLex
namespace Lexer

/-- Why a rule may refuse a text that it describes. -/
inductive Rule.Refuses (text : List UInt8) : Rule → Fault → Prop
  | name {name : Naming} (length : Nat) (plain : name ≠ .stringIdentifierWithWildcard) :
    Refuses text (.naming name) (.identifierTooLong length)
  | number {form : Number.Form} {fault : Fault} (h : Number.FormText form text)
    (hvalue : Number.evaluate form text = .error fault) : Refuses text (.ofForm form) fault
  | pattern (e : Pattern.Error) : Refuses text .bytePattern (.hexPattern e)

/-- How far a lexer has gone over a lexeme that it refuses. -/
inductive Rejects (lx after : Lexer) : Fault → Prop
  | whole {rule : Rule} {n : Nat} {fault : Fault} (selects : Selects lx.rest rule n)
    (refuses : rule.Refuses (lx.rest.take n) fault) (consumes : Consumes lx n after) :
    Rejects lx after fault
  | starred {n length : Nat}
    (selects : Selects lx.rest (.naming .stringIdentifierWithWildcard) (n + 1))
    (consumes : Consumes lx n after) (left : after.rest.head? = some Ascii.star) :
    Rejects lx after (.identifierTooLong length)
  | unmatched {b : UInt8} (hb : lx.rest.head? = some b)
    (h : ∀ (rule : Rule) n, ¬ rule.Matches (lx.rest.take n)) (consumes : Consumes lx 1 after) :
    Rejects lx after (.nonAsciiByte b)

/-- The last byte of a starred name is its star. -/
theorem head_of_starred {s : List UInt8} {n : Nat}
    (h : Selects s (.naming .stringIdentifierWithWildcard) (n + 1)) :
    (s.drop n).head? = some Ascii.star := by
  obtain ⟨word, -, htext⟩ := h.own
  have length : n + 1 = word.length + 2 := by
    rw [← List.length_take_of_le h.longest.1, htext]
    simp
  obtain rfl : n = word.length + 1 := by omega
  rw [List.head?_drop, ← List.getElem?_take_of_lt (Nat.lt_succ_self _), htext]
  simp

variable {lx : Lexer} {fault : Fault}

theorem Overlong.rejects {after : Lexer} {n : Nat} (h : Overlong lx.rest n)
    (consumes : Consumes lx n after) (length : Nat) :
    Rejects lx after (.identifierTooLong length) := by
  cases h with
  | whole selects plain => exact .whole selects (.name length plain) consumes
  | starred selects =>
    refine .starred selects consumes ?_
    rw [consumes.rest_eq]
    exact head_of_starred selects

theorem Munch.rejects {step : Step} {lexeme : Lexeme} {n : Nat} (munch : Munch lx.rest lexeme n)
    (effect : Effect lx n lexeme step) (hfault : step.fault? = some fault) :
    Rejects lx step.lexer fault := by
  have consumes := effect.consumes
  cases effect with
  | refused =>
    cases hfault
    cases munch with
    | selected selects yields =>
      cases yields with
      | badNumber h hvalue => exact .whole selects (.number h hvalue) consumes
    | tooLong overlong => exact overlong.rejects consumes _
    | unmatched hb h => exact .unmatched hb h consumes
  | hexRefused =>
    cases hfault
    cases munch with
    | selected selects yields =>
      cases yields with
      | bytePattern => exact .whole selects (.pattern _) consumes
  | _ => cases hfault

/-- A step outside literals and comments that answers an error stays there.  It has
taken the head that the table of lexical rules selects, all of it but the star of a
name over the limit, or else the one byte in front of it if no rule describes any
head. -/
theorem rejects_of_fault (hm : lx.mode = .initial) (hfault : lx.step.fault? = some fault) :
    lx.step.lexer.mode = .initial ∧ Rejects lx lx.step.lexer fault := by
  cases hfirst : Lexeme.first? lx.rest with
  | none =>
    have finished : lx.step = .answer lx (.ok (tokenBetween lx.position lx .eof .none)) [] := by
      rw [step, hm]
      simp only [stepInitial, hfirst]
    rw [finished] at hfault
    cases hfault
  | some found =>
    obtain ⟨lexeme, n⟩ := found
    have effect := effect_step hm hfirst
    refine ⟨?_, (munch_first hfirst).rejects effect hfault⟩
    generalize lx.step = step at effect hfault ⊢
    cases effect with
    | refused | hexRefused => exact hm
    | _ => cases hfault

/-- A number that is too large is taken up to the sign behind it. -/
theorem rejects_of_fault_number :
    let lx := new (Ascii.bytes "99999999999999999999*") LexicalPreferences.builtin Pattern.parse
    let digits := Ascii.bytes "99999999999999999999"
    lx.mode = .initial ∧ lx.step.fault? = some (.numberConversion digits) ∧
      ∃ rule n, Selects lx.rest rule n ∧ Consumes lx n lx.step.lexer := by
  intro lx digits
  have initial : lx.mode = .initial := rfl
  have refused : lx.step.fault? = some (.numberConversion digits) := by decide +kernel
  obtain ⟨-, rejects⟩ := rejects_of_fault initial refused
  cases rejects with
  | whole selects refuses consumes => exact ⟨initial, refused, _, _, selects, consumes⟩

/-- A dollar name of one byte too many in front of a star: the table selects the
name with its star, the step refuses the name, and the star is the next token. -/
theorem starred_name_splits :
    let name := List.replicate (limits.maxIdentifierLength + 1) (0x61 : UInt8)
    let lx := new (Ascii.dollar :: (name ++ [Ascii.star])) LexicalPreferences.builtin Pattern.parse
    Selects lx.rest (.naming .stringIdentifierWithWildcard) lx.rest.length ∧
      lx.step.fault? = some (.identifierTooLong name.length) ∧
      lx.step.lexer.rest = [Ascii.star] ∧
      (lx.step.lexer.next.result.toOption.map Token.kind) = some (.symbol Ascii.star) := by
  intro name lx
  have run : Ascii.runLength Ascii.isWordByte (name ++ [Ascii.star]) = name.length := by
    decide +kernel
  have star : (name ++ [Ascii.star])[Ascii.runLength Ascii.isWordByte (name ++ [Ascii.star])]? =
      some Ascii.star := by
    decide +kernel
  have selects := selects_starred star
  rw [run] at selects
  exact ⟨selects, by decide +kernel, by decide +kernel, by decide +kernel⟩

end Lexer
end RuleLex
