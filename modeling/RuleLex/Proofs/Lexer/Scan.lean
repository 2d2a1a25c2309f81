/-
What a source without errors is made of.

`Padding text gap` says that a gap stands in front of a text, and `Scans` that
a slice does whose token is known; both look at the text behind no further than
the scanners do.  `Course` strings them together to the cells that lead from one
place of a source to another.

A lexer in front of such texts takes them: `Reaches` is how far it comes without
an answer.  The other way round, what it takes is always such a text, so
`tokenize_of_course` and `course_of_tokenize` say what the tokens of a source are
without any mention of a lexer's states.
-/
import RuleLex.Proofs.Lexer.HexString
import RuleLex.Proofs.Lexer.Munch

namespace RuleLex

open Lexer (munch_first)

/-! ## Gaps -/

/-- White space and comments in front of a text.  A line comment ends with its
line or with the source. -/
inductive Padding (text : List UInt8) : List UInt8 → Prop
  | nil : Padding text []
  | blank {b : UInt8} {gap : List UInt8} (hb : Ascii.isBlank b = true)
    (rest : Padding text gap) : Padding text (b :: gap)
  | line {body gap : List UInt8} (h : Ascii.newline ∉ body)
    (ends : Ascii.Stops (· != Ascii.newline) (gap ++ text)) (rest : Padding text gap) :
    Padding text (Ascii.slash :: Ascii.slash :: (body ++ gap))
  | block {body gap : List UInt8} (h : Comment.IsClosed body) (rest : Padding text gap) :
    Padding text (Ascii.slash :: Ascii.star :: (body ++ gap))

/-- No gap begins here: there is neither white space nor a comment, unless one
that never closes. -/
def Bare (text : List UInt8) : Prop :=
  ∀ lexeme n, Lexeme.first? text = some (lexeme, n) →
    lexeme ≠ .blank ∧ lexeme ≠ .lineComment ∧
      (lexeme = .commentOpening → Comment.closingLength? (text.drop n) = none)

/-- White space and comments begin with a blank or a slash. -/
theorem head_of_ignored {b : UInt8} {text : List UInt8} (h : Ignored (b :: text)) :
    Ascii.isBlank b = true ∨ b = Ascii.slash := by
  generalize hs : b :: text = s at h
  cases h with
  | blank nonempty all => exact .inl (all b (by rw [← hs]; exact List.mem_cons_self))
  | line => exact .inr (List.cons.inj hs).1
  | block => exact .inr (List.cons.inj hs).1

namespace Lexeme

variable {b : UInt8} {s : List UInt8} {lexeme : Lexeme} {n : Nat}

theorem first_blank (hb : Ascii.isBlank b = true) (s : List UInt8) :
    first? (b :: s) = some (.blank, Ascii.runLength Ascii.isBlank (b :: s)) := by
  rw [first?, startingWith, if_pos hb]

theorem first_slash (s : List UInt8) : first? (Ascii.slash :: s) = some (ofSlash s) := by
  rw [first?, startingWith, if_neg (by decide), if_pos rfl]

theorem first_quote (s : List UInt8) :
    first? (Ascii.quote :: s) = some (.literalOpening .string, 1) := by
  rw [first?, startingWith, if_neg (by decide), if_neg (by decide), if_pos rfl]

theorem first_commentOpening (s : List UInt8) :
    first? (Ascii.slash :: Ascii.star :: s) = some (.commentOpening, 2) := by
  rw [first_slash, ofSlash, if_pos (List.head?_cons ..)]

theorem first_lineComment (s : List UInt8) :
    first? (Ascii.slash :: Ascii.slash :: s) =
      some (.lineComment, Ascii.runLength (· != Ascii.newline) s + 2) := by
  have run : Ascii.runLength (· != Ascii.newline) (Ascii.slash :: s) =
      Ascii.runLength (· != Ascii.newline) s + 1 := by
    rw [Ascii.runLength, List.takeWhile_cons_of_pos (by decide), List.length_cons]
    rfl
  rw [first_slash, ofSlash, if_neg (by rw [List.head?_cons]; decide), if_pos (List.head?_cons ..),
    run]
  congr 2
  omega

theorem first_of_solid (hb : Ascii.isBlank b = false) (hslash : b ≠ Ascii.slash)
    (h : first? (b :: s) = some (lexeme, n)) :
    lexeme ≠ .blank ∧ lexeme ≠ .lineComment ∧ lexeme ≠ .commentOpening := by
  obtain ⟨k, rfl⟩ : ∃ k, n = k + 1 := Nat.exists_eq_succ_of_ne_zero (first_pos h).ne'
  have takes := first_takes Pattern.parse h
  rw [List.take_succ_cons] at takes
  have solid : ¬ Ignored (b :: s.take k) := by
    intro ignored
    rcases head_of_ignored ignored with blank | slash
    · rw [hb] at blank
      cases blank
    · exact hslash slash
  refine ⟨?_, ?_, ?_⟩
  · rintro rfl
    exact solid takes
  · rintro rfl
    exact solid takes
  · rintro rfl
    exact hslash (List.cons.inj takes).1

end Lexeme

theorem bare_nil : Bare [] := nofun

theorem bare_of_solid {b : UInt8} {s : List UInt8} (hb : Ascii.isBlank b = false)
    (hslash : b ≠ Ascii.slash) : Bare (b :: s) := by
  intro lexeme n h
  obtain ⟨blank, line, opening⟩ := Lexeme.first_of_solid hb hslash h
  exact ⟨blank, line, fun h => absurd h opening⟩

theorem bare_of_regex {s : List UInt8} (hslash : s.head? ≠ some Ascii.slash)
    (hstar : s.head? ≠ some Ascii.star) : Bare (Ascii.slash :: s) := by
  intro lexeme n h
  rw [Lexeme.first_slash, Lexeme.ofSlash, if_neg hstar, if_neg hslash] at h
  cases h
  exact ⟨nofun, nofun, nofun⟩

theorem bare_of_open {s : List UInt8} (h : Comment.closingLength? s = none) :
    Bare (Ascii.slash :: Ascii.star :: s) := by
  intro lexeme n hfirst
  rw [Lexeme.first_commentOpening] at hfirst
  cases hfirst
  exact ⟨nofun, nofun, fun _ => h⟩

/-- Every text is a gap and a text where no gap begins. -/
theorem exists_padding (s : List UInt8) :
    ∃ gap text, s = gap ++ text ∧ Padding text gap ∧ Bare text := by
  -- On the length: a comment takes any number of bytes off the text at once.
  induction hlength : s.length using Nat.strong_induction_on generalizing s with
  | _ length ih =>
    subst hlength
    cases s with
    | nil => exact ⟨[], [], rfl, .nil, bare_nil⟩
    | cons b s =>
      have behind (after : List UInt8) (shorter : after.length ≤ s.length) :=
        ih after.length (Nat.lt_succ_of_le shorter) after rfl
      by_cases hb : Ascii.isBlank b = true
      · obtain ⟨gap, text, rfl, padding, bare⟩ := behind s (Nat.le_refl _)
        exact ⟨b :: gap, text, rfl, .blank hb padding, bare⟩
      by_cases hslash : b = Ascii.slash
      · subst hslash
        by_cases hline : s.head? = some Ascii.slash
        · obtain ⟨t, rfl⟩ := List.head?_eq_some_iff.1 hline
          obtain ⟨body, after, rfl, hbody, stops, -, -⟩ :=
            Ascii.exists_run (· != Ascii.newline) t
          obtain ⟨gap, text, rfl, padding, bare⟩ := behind after (by simp; omega)
          have body_line : Ascii.newline ∉ body := fun h => absurd (hbody _ h) (by decide)
          refine ⟨_, text, ?_, .line body_line stops padding, bare⟩
          simp only [List.cons_append, List.append_assoc]
        by_cases hstar : s.head? = some Ascii.star
        · obtain ⟨t, rfl⟩ := List.head?_eq_some_iff.1 hstar
          cases hclosing : Comment.closingLength? t with
          | none => exact ⟨[], _, rfl, .nil, bare_of_open hclosing⟩
          | some n =>
            obtain ⟨body, after, rfl, closed, -⟩ := Comment.closingLength_eq_some_iff.1 hclosing
            obtain ⟨gap, text, rfl, padding, bare⟩ := behind after (by simp; omega)
            refine ⟨_, text, ?_, .block closed padding, bare⟩
            simp only [List.cons_append, List.append_assoc]
        exact ⟨[], _, rfl, .nil, bare_of_regex hline hstar⟩
      exact ⟨[], _, rfl, .nil, bare_of_solid (Bool.eq_false_iff.2 hb) hslash⟩

/-! ## Literals -/

/-- The content of a literal piece by piece, in front of the tail that ends it
and behind the content so far. -/
inductive Gathers (form : Quoted) (tail : List UInt8) : List UInt8 → List UInt8 → Prop
  | nil (before : List UInt8) : Gathers form tail before []
  | cons {before piece content : List UInt8}
    (h : Piece.first form (piece ++ (content ++ tail)) = (.content, piece.length))
    (fits : (before ++ piece).length ≤ limits.maxLiteralSize)
    (rest : Gathers form tail (before ++ piece) content) :
    Gathers form tail before (piece ++ content)

namespace Piece

variable {s : List UInt8} {n : Nat}

theorem stringEscape_content_le (h : stringEscape s = (.content, n)) : n ≤ s.length + 1 := by
  unfold stringEscape at h
  split at h
  · cases h
  · split at h
    · cases h
      simp
    · split at h
      · rename_i hx
        cases h
        obtain ⟨-, hpair⟩ := hx
        unfold startsWithHexPair at hpair
        split at hpair
        · simp
        · cases hpair
      · split at h <;> cases h

theorem regexEscape_content_le (h : regexEscape s = (.content, n)) : n ≤ s.length + 1 := by
  unfold regexEscape at h
  split at h
  · cases h
  · split at h
    · cases h
    · cases h
      simp

/-- A piece of content lies within the text. -/
theorem content_le_length {form : Quoted} (h : first form s = (.content, n)) : n ≤ s.length := by
  cases s with
  | nil =>
    rw [first_nil] at h
    cases h
  | cons b rest =>
    cases form with
    | string =>
      simp only [first, ofString] at h
      split at h
      · cases h
      · split at h
        · cases h
        · split at h
          · exact stringEscape_content_le h
          · cases h
            exact Ascii.runLength_le_length _ _
    | regex =>
      simp only [first, ofRegex] at h
      split at h
      · simp only [regexClosing] at h
        split at h <;> cases h
      · split at h
        · cases h
        · split at h
          · exact regexEscape_content_le h
          · cases h
            exact Ascii.runLength_le_length _ _

end Piece

/-- What closes a literal in front of a rest. -/
inductive Closes (rest : List UInt8) : Quoted → List UInt8 → Modifiers → Prop
  | string : Closes rest .string [Ascii.quote] .empty
  | regex {run : List UInt8} {modifiers : Modifiers}
    (hrun : ∀ b ∈ run, Ascii.isWordByte b = true) (stops : Ascii.Stops Ascii.isWordByte rest)
    (h : Modifiers.ofRun run = .ok modifiers) :
    Closes rest .regex (Ascii.slash :: run) modifiers

theorem Closes.first {form : Quoted} {rest ending : List UInt8} {modifiers : Modifiers}
    (h : Closes rest form ending modifiers) :
    Piece.first form (ending ++ rest) = (.closing modifiers, ending.length) := by
  cases h with
  | string => rfl
  | @regex run _ hrun stops h =>
    have taken := Ascii.takeWhile_append_of_stops hrun stops
    show Piece.ofRegex (Ascii.slash :: (run ++ rest)) = _
    rw [Piece.ofRegex, if_pos rfl, Piece.regexClosing]
    simp only [taken, h, List.length_cons]

theorem Closes.head_append {form : Quoted} {rest ending : List UInt8} {modifiers : Modifiers}
    (h : Closes rest form ending modifiers) (s : List UInt8) :
    (ending ++ s).head? = some form.delimiter := by
  cases h <;> rfl

theorem closes_of_first {form : Quoted} {s : List UInt8} {modifiers : Modifiers} {n : Nat}
    (h : Piece.first form s = (.closing modifiers, n)) :
    ∃ ending rest, s = ending ++ rest ∧ n = ending.length ∧ Closes rest form ending modifiers := by
  cases s with
  | nil =>
    rw [Piece.first_nil] at h
    cases h
  | cons b s =>
    cases form with
    | string =>
      simp only [Piece.first, Piece.ofString] at h
      split at h
      · rename_i hb
        subst hb
        cases h
        exact ⟨[Ascii.quote], s, rfl, rfl, .string⟩
      · split at h
        · cases h
        · split at h
          · exact absurd rfl (Piece.not_delimiter_of_stringEscape h)
          · cases h
    | regex =>
      simp only [Piece.first, Piece.ofRegex] at h
      split at h
      · rename_i hb
        subst hb
        obtain ⟨run, rest, rfl, hrun, stops, htake, -⟩ := Ascii.exists_run Ascii.isWordByte s
        simp only [Piece.regexClosing, htake] at h
        split at h
        · rename_i hmodifiers
          cases h
          exact ⟨Ascii.slash :: run, rest, rfl, rfl, .regex hrun stops hmodifiers⟩
        · cases h
      · split at h
        · cases h
        · split at h
          · exact absurd rfl (Piece.not_delimiter_of_regexEscape h)
          · cases h

/-- The content of a literal goes on as far as its pieces fit. -/
theorem exists_gathers (form : Quoted) (before s : List UInt8) :
    ∃ content tail, s = content ++ tail ∧ Gathers form tail before content ∧
      ∀ n, Piece.first form tail = (.content, n) →
        limits.maxLiteralSize < (before ++ content ++ tail.take n).length := by
  induction hlength : s.length using Nat.strong_induction_on generalizing before s with
  | _ length ih =>
    subst hlength
    by_cases more : ∃ n, Piece.first form s = (.content, n) ∧
        (before ++ s.take n).length ≤ limits.maxLiteralSize
    · obtain ⟨n, hfirst, fits⟩ := more
      have nonempty : s ≠ [] := by
        rintro rfl
        rw [Piece.first_nil] at hfirst
        cases hfirst
      have pos := Piece.first_pos hfirst nonempty
      have within := Piece.content_le_length hfirst
      have shorter : (s.drop n).length < s.length := by
        rw [List.length_drop]
        omega
      obtain ⟨content, tail, hs, gathers, maximal⟩ :=
        ih _ shorter (before ++ s.take n) (s.drop n) rfl
      refine ⟨s.take n ++ content, tail, ?_, .cons ?_ fits gathers, ?_⟩
      · rw [List.append_assoc, ← hs, List.take_append_drop]
      · rw [← hs, List.take_append_drop, List.length_take_of_le within]
        exact hfirst
      · rw [← List.append_assoc]
        exact maximal
    · refine ⟨[], s, rfl, .nil before, fun n hfirst => ?_⟩
      rw [List.append_nil]
      exact Nat.lt_of_not_le fun fits => more ⟨n, hfirst, fits⟩

/-! ## Tokens -/

/-- A slice in front of a rest that a token is read from. -/
inductive Scans (service : PatternService) (rest : List UInt8) :
    List UInt8 → TokenKind → TokenValue → Prop
  | token {slice : List UInt8} {kind : TokenKind} {value : TokenValue}
    (h : Lexeme.first? (slice ++ rest) = some (.token kind value, slice.length)) :
    Scans service rest slice kind value
  | hexString {slice : List UInt8} {elements : List Pattern.Element}
    (h : Pattern.extent? (slice ++ rest) = some slice.length)
    (hread : service slice = .ok elements) :
    Scans service rest slice (.literal .hexString) (.hexPattern elements)
  | literal {form : Quoted} {content ending : List UInt8} {modifiers : Modifiers}
    (hopen : Lexeme.first? (form.delimiter :: (content ++ (ending ++ rest))) =
      some (.literalOpening form, 1))
    (gathers : Gathers form (ending ++ rest) [] content)
    (closes : Closes rest form ending modifiers) :
    Scans service rest (form.delimiter :: (content ++ ending))
      (.literal (Piece.finish form content modifiers).1) (Piece.finish form content modifiers).2

theorem Lexeme.kind_ne_eof {s : List UInt8} {kind : TokenKind} {value : TokenValue} {n : Nat}
    (h : first? s = some (.token kind value, n)) : kind ≠ .eof := by
  cases munch_first h with
  | selected _ yields => exact yields.kind_ne_eof

/-- What is not refused lies within the text. -/
theorem Lexeme.le_length_of_first {s : List UInt8} {lexeme : Lexeme} {n : Nat}
    (h : first? s = some (lexeme, n)) (hlexeme : ∀ fault, lexeme ≠ .refused fault) :
    n ≤ s.length := by
  cases munch_first h with
  | selected selects => exact selects.longest.1
  | tooLong | unmatched => exact absurd rfl (hlexeme _)

theorem Lexeme.literalOpening_text {s : List UInt8} {form : Quoted} {n : Nat}
    (h : first? s = some (.literalOpening form, n)) :
    n = 1 ∧ ∃ rest, s = form.delimiter :: rest := by
  have text : s.take n = [form.delimiter] := first_takes Pattern.parse h
  have within : n ≤ s.length := le_length_of_first h nofun
  have length := congrArg List.length text
  rw [List.length_take_of_le within] at length
  refine ⟨length, s.drop n, ?_⟩
  conv_lhs => rw [← List.take_append_drop n s, text]
  rfl

theorem Scans.kind_ne_eof {service : PatternService} {rest slice : List UInt8} {kind : TokenKind}
    {value : TokenValue} (h : Scans service rest slice kind value) : kind ≠ .eof := by
  cases h with
  | token h => exact Lexeme.kind_ne_eof h
  | hexString => nofun
  | literal => nofun

theorem Scans.length_pos {service : PatternService} {rest slice : List UInt8} {kind : TokenKind}
    {value : TokenValue} (h : Scans service rest slice kind value) : 0 < slice.length := by
  cases h with
  | token h => exact Lexeme.first_pos h
  | hexString h => exact Lexeme.first_pos (Lexer.first_hexPattern h)
  | literal => exact Nat.succ_pos _

end RuleLex
