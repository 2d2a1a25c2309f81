/-
What a call outside literals and comments comes to.

Such a call passes the gap in front of it and then finds one of four things: a
token that it answers, a lexeme that it refuses, a comment without an end, or the
opening delimiter of a literal.  `Refused` lists the texts that are refused, each
with its fault, and `exists_front` says that there is nothing else to find.
-/
import RuleLex.Proofs.Lexer.Dispatch
import RuleLex.Proofs.Lexer.Literal

namespace RuleLex

open Lexer (IsWord)

/-! ## Refused lexemes -/

/-- The text of a lexeme outside literals that is refused for a fault. -/
inductive Refused (service : PatternService) : Fault → List UInt8 → Prop
  | number {form : Number.Form} {text : List UInt8} {fault : Fault}
    (h : Number.FormText form text) (hvalue : Number.evaluate form text = .error fault) :
    Refused service fault text
  | word {text : List UInt8} (h : IsWord text) (long : limits.maxIdentifierLength < text.length) :
    Refused service (.identifierTooLong text.length) text
  | sigil {b : UInt8} {name : List UInt8}
    (hb : b ∈ [Ascii.dollar, Ascii.hash, Ascii.atSign, Ascii.bang])
    (h : ∀ c ∈ name, Ascii.isWordByte c = true)
    (long : limits.maxIdentifierLength < name.length) :
    Refused service (.identifierTooLong name.length) (b :: name)
  | byte {b : UInt8} (h : Ascii.isPrintable b = false) : Refused service (.nonAsciiByte b) [b]
  | pattern {text : List UInt8} {e : Pattern.Error} (h : Pattern.Braced text)
    (hread : service text = .error e) : Refused service (.hexPattern e) text

/-- A refused lexeme leaves nothing open. -/
theorem Refused.complete {service : PatternService} {fault : Fault} {text : List UInt8}
    (h : Refused service fault text) :
    fault.staysOpen = false ∧ fault ≠ .unterminatedComment := by
  cases h with
  | number _ hvalue =>
    rcases Number.fault_of_evaluate hvalue with rfl | rfl <;> exact ⟨rfl, nofun⟩
  | word | sigil | byte | pattern => exact ⟨rfl, nofun⟩

namespace Lexeme

variable {b : UInt8} {s : List UInt8} {fault : Fault} {n : Nat}

theorem refused_ofNumber (service : PatternService) (hb : Ascii.isDigit b = true)
    (h : ofNumber (b :: s) = (.refused fault, n)) : Refused service fault ((b :: s).take n) := by
  have form : Number.FormText (Number.longest (b :: s)).1
      ((b :: s).take (Number.longest (b :: s)).2) := Number.formText_longest hb
  unfold ofNumber at h
  split at h
  · cases h
  · rename_i hscan
    cases h
    have hvalue := congrArg Prod.fst hscan
    have hlength : (Number.longest (b :: s)).2 = n := congrArg Prod.snd hscan
    exact .number (hlength ▸ form) (hlength ▸ hvalue)

theorem refused_ofWord (service : PatternService) {text : List UInt8} (hword : IsWord text)
    (h : ofWord text = .refused fault) : Refused service fault text := by
  unfold ofWord at h
  split at h
  · cases h
  · split at h
    · rename_i long
      cases h
      exact .word hword long
    · split at h <;> cases h

theorem refused_ofSigil (service : PatternService)
    (hb : b ∈ [Ascii.dollar, Ascii.hash, Ascii.atSign, Ascii.bang])
    (h : ofSigil b s = (.refused fault, n)) : Refused service fault ((b :: s).take n) := by
  simp only [ofSigil] at h
  split at h
  · rename_i long
    cases h
    have text := Lexer.take_sigil b s
    rw [Ascii.runLength] at text
    rw [text]
    exact .sigil hb (fun c hc => List.mem_takeWhile_imp hc) long
  · cases h

theorem refused_startingWith (service : PatternService)
    (h : startingWith b s = (.refused fault, n)) : Refused service fault ((b :: s).take n) := by
  rw [startingWith] at h
  by_cases hblank : Ascii.isBlank b = true
  · rw [if_pos hblank] at h
    cases h
  rw [if_neg hblank] at h
  by_cases hslash : b = Ascii.slash
  · rw [if_pos hslash, ofSlash] at h
    split at h
    · cases h
    · split at h <;> cases h
  rw [if_neg hslash] at h
  by_cases hquote : b = Ascii.quote
  · rw [if_pos hquote] at h
    cases h
  rw [if_neg hquote] at h
  by_cases hbrace : b = Ascii.openBrace
  · rw [if_pos hbrace, ofBrace] at h
    split at h <;> cases h
  rw [if_neg hbrace] at h
  by_cases hdigit : Ascii.isDigit b = true
  · rw [if_pos hdigit] at h
    exact refused_ofNumber service hdigit h
  rw [if_neg hdigit] at h
  by_cases hword : Ascii.isWordStart b = true
  · rw [if_pos hword] at h
    obtain ⟨hrefused, rfl⟩ := Prod.mk.inj h
    have text : (b :: s).take ((b :: s).takeWhile Ascii.isWordByte).length =
        (b :: s).takeWhile Ascii.isWordByte := Ascii.take_runLength Ascii.isWordByte (b :: s)
    rw [text]
    exact refused_ofWord service (Lexer.isWord_takeWhile hword) hrefused
  rw [if_neg hword] at h
  by_cases hsigil : b = Ascii.dollar ∨ b = Ascii.hash ∨ b = Ascii.atSign
  · rw [if_pos hsigil] at h
    exact refused_ofSigil service (by simp; tauto) h
  rw [if_neg hsigil] at h
  by_cases hbang : b = Ascii.bang ∧ s.head? ≠ some Ascii.equals
  · rw [if_pos hbang] at h
    exact refused_ofSigil service (by simp [hbang.1]) h
  rw [if_neg hbang] at h
  by_cases hprintable : Ascii.isPrintable b = true
  · rw [if_pos hprintable, ofPunctuation] at h
    split at h <;> cases h
  rw [if_neg hprintable] at h
  cases h
  exact .byte (Bool.eq_false_iff.2 hprintable)

theorem refused_of_first (service : PatternService) (h : first? s = some (.refused fault, n)) :
    Refused service fault (s.take n) := by
  cases s with
  | nil => cases h
  | cons b s => exact refused_startingWith service (Option.some.inj h)

end Lexeme

/-! ## Tokens and literals -/

/-- The kinds of the tokens that literals between delimiters become. -/
def TokenKind.isQuoted : TokenKind → Bool
  | .literal .textString | .literal .regex => true
  | _ => false

/-- A delimiter in front of the text opens a literal.  Two slashes begin a comment,
and so do a slash and a star. -/
def Quoted.Opens (form : Quoted) (s : List UInt8) : Prop :=
  form = .regex → s.head? ≠ some Ascii.slash ∧ s.head? ≠ some Ascii.star

theorem Comment.not_isClosed_take {s : List UInt8} (h : closingLength? s = none) (n : Nat) :
    ¬ IsClosed (s.take n) := by
  intro closed
  have length := closingLength_append closed (s.drop n)
  rw [List.take_append_drop, h] at length
  cases length

/-- A token that is read at once is no literal between delimiters. -/
theorem Lexeme.isQuoted_of_first {s : List UInt8} {kind : TokenKind} {value : TokenValue} {n : Nat}
    (h : first? s = some (.token kind value, n)) : kind.isQuoted = false := by
  cases Lexer.munch_first h with
  | selected _ yields =>
    cases yields with
    | number _ hvalue => rcases Number.literal_of_evaluate hvalue with rfl | rfl <;> rfl
    | operator | keyword | naming | symbol => rfl

theorem Lexeme.commentOpening_text {s : List UInt8} {n : Nat}
    (h : first? s = some (.commentOpening, n)) :
    n = 2 ∧ ∃ body, s = Ascii.slash :: Ascii.star :: body := by
  have text : s.take n = [Ascii.slash, Ascii.star] := first_takes Pattern.parse h
  have within : n ≤ s.length := le_length_of_first h nofun
  have length := congrArg List.length text
  rw [List.length_take_of_le within] at length
  refine ⟨length, s.drop n, ?_⟩
  conv_lhs => rw [← List.take_append_drop n s, text]
  rfl

theorem Lexeme.opens_of_first {s : List UInt8} {form : Quoted}
    (h : first? (form.delimiter :: s) = some (.literalOpening form, 1)) : form.Opens s := by
  rintro rfl
  have slash : first? (Ascii.slash :: s) = some (.literalOpening .regex, 1) := h
  rw [first_slash, ofSlash] at slash
  by_cases hstar : s.head? = some Ascii.star
  · rw [if_pos hstar] at slash
    cases slash
  by_cases hslash : s.head? = some Ascii.slash
  · rw [if_neg hstar, if_pos hslash] at slash
    cases slash
  exact ⟨hslash, hstar⟩

namespace Lexer

variable {lx : Lexer}

/-- What a call finds where no gap begins. -/
inductive Finds (lx : Lexer) : Prop
  | token {t : Token} {n : Nat} (ht : t.kind.isQuoted = false)
    (answers : Answers lx (.ok t) n .initial)
  | refused {text rest : List UInt8} {fault : Fault} (rest_eq : lx.rest = text ++ rest)
    (h : Refused lx.service fault text)
    (answers : Answers lx (.error { line := lx.line, fault := fault }) text.length .initial)
  | comment {body : List UInt8} (rest_eq : lx.rest = Ascii.slash :: Ascii.star :: body)
    (unclosed : ∀ n, ¬ Comment.IsClosed (body.take n))
    (answers : Answers lx (.error { line := lx.line, fault := .unterminatedComment })
      lx.rest.length .initial)
  | literal {s : List UInt8} {form : Quoted} {opened : Lexer} (opens : form.Opens s)
    (enters : Enters lx form s opened)

/-- A comment that never closes takes the rest of the source. -/
theorem answers_of_open {opening : Position} (hm : lx.mode = .comment opening)
    (h : Comment.closingLength? lx.rest = none) :
    Answers lx (.error { line := opening.line, fault := .unterminatedComment }) lx.rest.length
      .initial := by
  have at_end {last : Lexer} (hm : last.mode = .comment opening) (hrest : last.rest = []) :
      Answers last (.error { line := opening.line, fault := .unterminatedComment }) 0
        .initial := by
    have step_eq : last.step =
        last.answerInitial (.error { line := opening.line, fault := .unterminatedComment }) := by
      rw [step, hm]
      simp only [stepComment, if_pos hrest]
    exact answers_of_step step_eq ⟨rfl, rfl, rfl, rfl⟩
  by_cases hrest : lx.rest = []
  · have answers := at_end hm hrest
    rwa [hrest]
  · have drained : GoesOn lx (lx.consume lx.rest.length) := by
      refine ⟨[], ?_⟩
      rw [step, hm]
      simp only [stepComment, if_neg hrest, h]
    have mode_eq : (lx.consume lx.rest.length).mode = .comment opening := hm
    exact (reaches_of_goesOn drained (consumes_consume lx _)).answers
      (at_end mode_eq List.drop_length)

/-- The bytes taken by a step are as many as there are. -/
theorem Consumes.take_length {n : Nat} {after : Lexer} (h : Consumes lx n after) :
    Consumes lx (lx.rest.take n).length after := by
  by_cases fits : n ≤ lx.rest.length
  · rwa [List.length_take_of_le fits]
  · have excess := Nat.le_of_not_le fits
    refine ⟨?_, ?_, h.service_eq, h.preferences_eq⟩
    · rw [List.take_of_length_le excess, List.drop_length, h.rest_eq, List.drop_of_length_le excess]
    · rw [h.cursor_eq, List.take_of_length_le excess, List.take_length]

theorem finds_of_bare (hm : lx.mode = .initial) (bare : Bare lx.rest) : Finds lx := by
  have answered {after : Lexer} {result : Except LexError Token} {reports : List Log.Event}
      {n : Nat} (hstep : lx.step = .answer after result reports) (hn : Consumes lx n after)
      (hafter : after.mode = .initial) : Answers lx result n .initial :=
    hafter ▸ answers_of_step hstep hn
  cases hfirst : Lexeme.first? lx.rest with
  | none =>
    have hstep : lx.step = .answer lx (.ok (tokenBetween lx.position lx .eof .none)) [] := by
      rw [step, hm]
      simp only [stepInitial, hfirst]
    exact .token rfl (answered hstep (.refl lx) hm)
  | some found =>
    obtain ⟨lexeme, n⟩ := found
    have cut : lx.rest = lx.rest.take n ++ lx.rest.drop n :=
      (List.take_append_drop n lx.rest).symm
    have effect := effect_step hm hfirst
    generalize hstep : lx.step = step at effect
    have taken := effect.consumes
    cases effect with
    | blank => exact absurd rfl (bare _ _ hfirst).1
    | lineComment => exact absurd rfl (bare _ _ hfirst).2.1
    | openComment =>
      -- The comment would be a gap if it closed.
      have unclosed := (bare _ _ hfirst).2.2 rfl
      obtain ⟨rfl, body, hbody⟩ := Lexeme.commentOpening_text hfirst
      obtain ⟨inside, opened, hinside, hmode⟩ := step_commentOpening hm hfirst
      rw [← hinside.rest_eq] at unclosed
      have answers := (reaches_of_goesOn opened hinside).answers (answers_of_open hmode unclosed)
      have inside_rest : inside.rest = body := by
        rw [hinside.rest_eq, hbody]
        rfl
      have length_eq : 2 + body.length = lx.rest.length := by
        rw [hbody, List.length_cons, List.length_cons]
        omega
      rw [inside_rest, length_eq] at answers
      rw [inside_rest] at unclosed
      exact .comment hbody (Comment.not_isClosed_take unclosed) answers
    | openLiteral form =>
      obtain ⟨rfl, s, hs⟩ := Lexeme.literalOpening_text hfirst
      obtain ⟨opened, enters⟩ := exists_enters hm hs hfirst
      rw [hs] at hfirst
      exact .literal (Lexeme.opens_of_first hfirst) enters
    | hexString => exact .token rfl (answered hstep taken hm)
    | hexRefused hread =>
      have braced := (Pattern.isLongest_of_extent (extent_of_first hfirst)).2.1
      exact .refused cut (.pattern braced hread) (answered hstep taken.take_length hm)
    | token => exact .token (Lexeme.isQuoted_of_first hfirst) (answered hstep taken hm)
    | refused =>
      exact .refused cut (Lexeme.refused_of_first lx.service hfirst)
        (answered hstep taken.take_length hm)

/-- The lexer comes past a gap to the front of what it has to read. -/
structure Approaches (lx : Lexer) (gap : List UInt8) (front : Lexer) : Prop where
  rest_eq : lx.rest = gap ++ front.rest
  padding : Padding front.rest gap
  reaches : Reaches lx gap.length front
  position_eq : front.position = lx.position.advanceBytes gap

/-- What a call comes to that begins outside literals and comments. -/
theorem exists_front (hm : lx.mode = .initial) :
    ∃ gap front, Approaches lx gap front ∧ Finds front := by
  obtain ⟨gap, text, hsplit, padding, bare⟩ := exists_padding lx.rest
  obtain ⟨front, reaches, hfront⟩ := reaches_of_padding padding hm hsplit
  obtain ⟨rfl, position_eq⟩ := reaches.consumes.append hsplit
  exact ⟨gap, front, ⟨hsplit, padding, reaches, position_eq⟩, finds_of_bare hfront bare⟩

end Lexer
end RuleLex
