/-
How far a token looks ahead.

No token but a byte pattern looks past white space or a comment behind it.
`Boundary` is what begins so, or the end of the source: the runs a scanner takes
stop there, no operator, suffix or star goes on there.  `Scans.beyond` says that
what is read from a slice stays the same when the text behind the next boundary
changes.
-/
import RuleLex.Proofs.Lexer.Scan

namespace RuleLex

/-- The text has ended, or goes on with white space or a comment. -/
def Boundary (rest : List UInt8) : Prop :=
  ∀ b, rest.head? = some b → Ascii.isBlank b = true ∨ b = Ascii.slash

namespace Boundary

variable {rest : List UInt8}

theorem nil : Boundary [] := nofun

theorem cons_iff {b : UInt8} :
    Boundary (b :: rest) ↔ Ascii.isBlank b = true ∨ b = Ascii.slash := by
  simp [Boundary]

theorem head_mem (h : Boundary rest) {b : UInt8} (hb : rest.head? = some b) :
    b ∈ [Ascii.space, Ascii.tab, Ascii.carriageReturn, Ascii.newline, Ascii.slash] := by
  rcases h b hb with blank | rfl
  · simp only [Ascii.isBlank, Bool.or_eq_true, beq_iff_eq] at blank
    rcases blank with ((rfl | rfl) | rfl) | rfl <;> simp
  · simp

/-- A class without white space and slash stops. -/
theorem stops (h : Boundary rest) {test : UInt8 → Bool}
    (htest : [Ascii.space, Ascii.tab, Ascii.carriageReturn, Ascii.newline, Ascii.slash].all
      (!test ·) = true) : Ascii.Stops test rest := by
  intro b hb
  simpa using List.all_eq_true.1 htest b (h.head_mem hb)

theorem stops_digit (h : Boundary rest) : Ascii.Stops Ascii.isDigit rest := h.stops (by decide)

theorem stops_word (h : Boundary rest) : Ascii.Stops Ascii.isWordByte rest := h.stops (by decide)

theorem head_ne (h : Boundary rest) {c : UInt8}
    (hc : c ∉ [Ascii.space, Ascii.tab, Ascii.carriageReturn, Ascii.newline, Ascii.slash]) :
    rest.head? ≠ some c :=
  fun hhead => hc (h.head_mem hhead)

end Boundary

/-! ## Numbers -/

namespace Number

variable {rest : List UInt8}

theorem multiplier_of_head {s : List UInt8} (hk : s.head? ≠ some Ascii.upperK)
    (hm : s.head? ≠ some Ascii.upperM) : multiplier? s = none := by
  cases h : multiplier? s with
  | none => rfl
  | some m =>
    obtain ⟨tail, ⟨rfl, -⟩ | ⟨rfl, -⟩⟩ := multiplier_eq_some h
    · exact absurd rfl hk
    · exact absurd rfl hm

theorem multiplier_of_second {a : UInt8} {s : List UInt8} (hb : s.head? ≠ some Ascii.upperB) :
    multiplier? (a :: s) = none := by
  cases h : multiplier? (a :: s) with
  | none => rfl
  | some m =>
    obtain ⟨tail, ⟨hs, -⟩ | ⟨hs, -⟩⟩ := multiplier_eq_some h
    · exact absurd (by rw [(List.cons.inj hs).2]; rfl) hb
    · exact absurd (by rw [(List.cons.inj hs).2]; rfl) hb

theorem multiplier_append (h : Boundary rest) (s : List UInt8) :
    multiplier? (s ++ rest) = multiplier? s := by
  -- A suffix has two bytes, and the boundary can be neither of them.
  match s with
  | [] => exact multiplier_of_head (h.head_ne (by decide)) (h.head_ne (by decide))
  | [a] => exact multiplier_of_second (h.head_ne (by decide))
  | a :: b :: s => rfl

theorem drop_run_append (test : UInt8 → Bool) (s rest : List UInt8) :
    (s ++ rest).drop (Ascii.runLength test s) = s.drop (Ascii.runLength test s) ++ rest :=
  List.drop_append_of_le_length (Ascii.runLength_le_length test s)

theorem decimalCandidate_append (h : Boundary rest) (s : List UInt8) :
    decimalCandidate (s ++ rest) = decimalCandidate s := by
  unfold decimalCandidate
  simp only [h.stops_digit.runLength_append, drop_run_append, multiplier_append h]

theorem floatCandidate_append (h : Boundary rest) (s : List UInt8) :
    floatCandidate (s ++ rest) = floatCandidate s := by
  unfold floatCandidate
  simp only [h.stops_digit.runLength_append, drop_run_append]
  cases s.drop (Ascii.runLength Ascii.isDigit s) with
  | nil =>
    cases rest with
    | nil => rfl
    | cons c rest =>
      have noDot : c ≠ Ascii.dot := fun hc =>
        h.head_ne (c := Ascii.dot) (by decide) (by rw [hc]; rfl)
      simp only [List.nil_append, if_neg noDot]
  | cons c tail => simp only [List.cons_append, h.stops_digit.runLength_append]

theorem radixCandidate_append (form : Form) {letter : UInt8} {test : UInt8 → Bool}
    (hletter : rest.head? ≠ some letter) (htest : Ascii.Stops test rest)
    (a : UInt8) (s : List UInt8) :
    radixCandidate form letter test (a :: s ++ rest) =
      radixCandidate form letter test (a :: s) := by
  cases s with
  | nil =>
    cases rest with
    | nil => rfl
    | cons c rest =>
      have other : ¬ (a = Ascii.zero ∧ c = letter) := fun hc => hletter (by rw [hc.2]; rfl)
      simp only [List.cons_append, List.nil_append, radixCandidate, if_neg other]
  | cons b s => simp only [List.cons_append, radixCandidate, htest.runLength_append]

theorem longest_append (h : Boundary rest) (a : UInt8) (s : List UInt8) :
    longest (a :: s ++ rest) = longest (a :: s) := by
  have hex := radixCandidate_append .hex (h.head_ne (by decide) : rest.head? ≠ some Ascii.lowerX)
    (h.stops (by decide) : Ascii.Stops Ascii.isHexDigit rest) a s
  have octal :=
    radixCandidate_append .octal (h.head_ne (by decide) : rest.head? ≠ some Ascii.lowerO)
      (h.stops (by decide) : Ascii.Stops Ascii.isOctalDigit rest) a s
  simp only [longest, candidates, decimalCandidate_append h, floatCandidate_append h, hex, octal]

theorem scan_append (h : Boundary rest) (a : UInt8) (s : List UInt8) :
    scan (a :: s ++ rest) = scan (a :: s) := by
  unfold scan
  rw [longest_append h]
  simp only [List.take_append_of_le_length (longest_le_length (a :: s))]

end Number

/-! ## Lexemes -/

namespace Lexeme

variable {rest : List UInt8}

theorem getElem_run_append (h : Boundary rest) {c : UInt8} {test : UInt8 → Bool}
    (hc : c ∉ [Ascii.space, Ascii.tab, Ascii.carriageReturn, Ascii.newline, Ascii.slash])
    (s : List UInt8) :
    ((s ++ rest)[(s.takeWhile test).length]? == some c) =
      (s[(s.takeWhile test).length]? == some c) := by
  by_cases inside : (s.takeWhile test).length < s.length
  · rw [List.getElem?_append_left inside]
  · have past := Nat.le_of_not_lt inside
    have whole : (s.takeWhile test).length = s.length :=
      Nat.le_antisymm (Ascii.runLength_le_length test s) past
    rw [whole, List.getElem?_append_right (Nat.le_refl _), Nat.sub_self, ← List.head?_eq_getElem?,
      List.getElem?_eq_none (Nat.le_refl _), beq_eq_false_iff_ne.2 (h.head_ne hc)]
    rfl

theorem ofSigil_append (h : Boundary rest) (b : UInt8) (s : List UInt8) :
    ofSigil b (s ++ rest) = ofSigil b s := by
  unfold ofSigil
  simp only [h.stops_word.takeWhile_append, getElem_run_append h (c := Ascii.star) (by decide)]

/-- No operator ends with white space or a slash. -/
theorem operator_of_boundary (h : Boundary rest) (b : UInt8) :
    rest.head?.bind (Operator.ofBytes? b) = none := by
  cases hhead : rest.head? with
  | none => rfl
  | some c =>
    have ends : ∀ op ∈ Operator.all, (Ascii.bytes op.spelling)[1]? ∉
        [some Ascii.space, some Ascii.tab, some Ascii.carriageReturn, some Ascii.newline,
          some Ascii.slash] := by decide
    rw [Option.bind_some, Operator.ofBytes?, List.find?_eq_none]
    intro op hop hspelled
    have second := ends op hop
    rw [eq_of_beq hspelled] at second
    exact second (List.mem_map_of_mem (f := some) (h.head_mem hhead))

theorem ofPunctuation_append (h : Boundary rest) (b : UInt8) (s : List UInt8) :
    ofPunctuation b (s ++ rest) = ofPunctuation b s := by
  unfold ofPunctuation
  cases s with
  | nil =>
    rw [List.nil_append, operator_of_boundary h]
    rfl
  | cons c s => rfl

theorem ofNumber_append (h : Boundary rest) (b : UInt8) (s : List UInt8) :
    ofNumber (b :: s ++ rest) = ofNumber (b :: s) := by
  unfold ofNumber
  rw [Number.scan_append h]

theorem head_equals_append (h : Boundary rest) (s : List UInt8) :
    (s ++ rest).head? ≠ some Ascii.equals ↔ s.head? ≠ some Ascii.equals := by
  cases s with
  | nil => exact iff_of_true (h.head_ne (by decide)) nofun
  | cons c s => rfl

/-- A lexeme other than a comment, a literal or a byte pattern does not look past
a boundary. -/
theorem first_append (h : Boundary rest) {b : UInt8} (hb : Ascii.isBlank b = false)
    (hslash : b ≠ Ascii.slash) (hbrace : b ≠ Ascii.openBrace) (s : List UInt8) :
    first? (b :: s ++ rest) = first? (b :: s) := by
  have blank : ¬ Ascii.isBlank b = true := by rw [hb]; nofun
  have number := ofNumber_append h b s
  have word := h.stops_word.takeWhile_append (b :: s)
  rw [List.cons_append] at number word ⊢
  simp only [first?, startingWith, if_neg blank, if_neg hslash, if_neg hbrace, number, word,
    ofSigil_append h, ofPunctuation_append h, head_equals_append h]

theorem head_append_of_ne_nil {s : List UInt8} (hs : s ≠ []) (rest other : List UInt8) :
    (s ++ rest).head? = (s ++ other).head? := by
  obtain ⟨b, s, rfl⟩ := List.exists_cons_of_ne_nil hs
  rfl

/-- The opening of a literal looks at the byte behind it. -/
theorem literalOpening_congr {form : Quoted} {s t : List UInt8} (hhead : s.head? = t.head?) :
    first? (form.delimiter :: s) = some (.literalOpening form, 1) →
      first? (form.delimiter :: t) = some (.literalOpening form, 1) := by
  cases form with
  | string => exact fun _ => first_quote t
  | regex =>
    intro h
    have hs : ofSlash s = (.literalOpening .regex, 1) := by
      rw [← Option.some.injEq, ← first_slash]
      exact h
    unfold ofSlash at hs
    split at hs
    · cases hs
    · rename_i star
      split at hs
      · cases hs
      · rename_i slash
        rw [hhead] at star slash
        show first? (Ascii.slash :: t) = _
        rw [first_slash, ofSlash, if_neg star, if_neg slash]

end Lexeme

/-! ## Literals -/

namespace Piece

variable {s t : List UInt8}

theorem stringEscape_congr {p : List UInt8}
    (h : stringEscape (p ++ s) = (.content, p.length + 1)) :
    stringEscape (p ++ t) = (.content, p.length + 1) := by
  cases p with
  | nil =>
    exfalso
    rw [List.nil_append] at h
    unfold stringEscape at h
    split at h
    · cases h
    · split at h
      · cases h
      · split at h
        · cases h
        · split at h <;> cases h
  | cons c p =>
    simp only [List.cons_append, stringEscape, List.length_cons] at h ⊢
    split at h
    · rename_i simple
      rw [if_pos simple]
      exact congrArg (Prod.mk Piece.content) (Prod.mk.inj h).2
    · rename_i simple
      rw [if_neg simple]
      split at h
      · rename_i pair
        obtain ⟨d, e, rfl⟩ : ∃ d e, p = [d, e] :=
          List.length_eq_two.1 (by have := (Prod.mk.inj h).2; omega)
        exact if_pos pair
      · split at h <;> cases h

theorem regexEscape_congr {p : List UInt8} (h : regexEscape (p ++ s) = (.content, p.length + 1)) :
    regexEscape (p ++ t) = (.content, p.length + 1) := by
  cases p with
  | nil =>
    exfalso
    rw [List.nil_append] at h
    unfold regexEscape at h
    split at h
    · cases h
    · split at h <;> cases h
  | cons c p =>
    simp only [List.cons_append, regexEscape] at h ⊢
    exact h

theorem runLength_congr {test : UInt8 → Bool} {b : UInt8} {p : List UInt8}
    (hhead : s.head? = t.head?)
    (h : Ascii.runLength test (b :: (p ++ s)) = (b :: p).length) :
    Ascii.runLength test (b :: (p ++ t)) = (b :: p).length := by
  obtain ⟨run, stops⟩ := Ascii.runLength_eq_length_iff (s := b :: p).1 h
  exact Ascii.runLength_eq_length_iff.2 ⟨run, fun b hb => stops b (hhead.trans hb)⟩

/-- A piece of content looks at the byte behind it. -/
theorem content_congr {form : Quoted} {piece : List UInt8} (hhead : s.head? = t.head?)
    (h : first form (piece ++ s) = (.content, piece.length)) :
    first form (piece ++ t) = (.content, piece.length) := by
  cases piece with
  | nil =>
    exfalso
    have nonempty : s ≠ [] := by
      rintro rfl
      rw [List.append_nil, first_nil] at h
      cases h
    exact Nat.lt_irrefl 0 (first_pos h nonempty)
  | cons b p =>
    cases form with
    | string =>
      simp only [List.cons_append, first, ofString] at h ⊢
      split at h
      · cases h
      · rename_i quote
        rw [if_neg quote]
        split at h
        · cases h
        · rename_i newline
          rw [if_neg newline]
          split at h
          · rename_i escape
            rw [if_pos escape]
            exact stringEscape_congr h
          · rename_i escape
            rw [if_neg escape]
            exact congrArg (Prod.mk Piece.content) (runLength_congr hhead (Prod.mk.inj h).2)
    | regex =>
      simp only [List.cons_append, first, ofRegex] at h ⊢
      split at h
      · simp only [regexClosing] at h
        split at h <;> cases h
      · rename_i slash
        rw [if_neg slash]
        split at h
        · cases h
        · rename_i newline
          rw [if_neg newline]
          split at h
          · rename_i escape
            rw [if_pos escape]
            exact regexEscape_congr h
          · rename_i escape
            rw [if_neg escape]
            exact congrArg (Prod.mk Piece.content) (runLength_congr hhead (Prod.mk.inj h).2)

end Piece

theorem head_append {s t : List UInt8} (content : List UInt8) (hhead : s.head? = t.head?) :
    (content ++ s).head? = (content ++ t).head? := by
  cases content with
  | nil => exact hhead
  | cons b content => rfl

theorem Gathers.congr {form : Quoted} {tail other before content : List UInt8}
    (hhead : tail.head? = other.head?) (h : Gathers form tail before content) :
    Gathers form other before content := by
  induction h with
  | nil before => exact .nil before
  | cons hfirst fits gathers ih =>
    exact .cons (Piece.content_congr (head_append _ hhead) hfirst) fits ih

theorem Closes.beyond {form : Quoted} {w rest other ending : List UInt8} {modifiers : Modifiers}
    (hother : Boundary other) (h : Closes (w ++ rest) form ending modifiers) :
    Closes (w ++ other) form ending modifiers := by
  cases h with
  | string => exact .string
  | regex hrun stops hmodifiers =>
    refine .regex hrun ?_ hmodifiers
    cases w with
    | nil => exact hother.stops_word
    | cons c w => exact Ascii.stops_cons_iff.2 (Ascii.stops_cons_iff.1 stops)

/-! ## Tokens -/

/-- The kinds that begin with a brace: a byte pattern, and the symbol where none
begins. -/
def TokenKind.isBraced : TokenKind → Bool
  | .symbol b => b == Ascii.openBrace
  | .literal .hexString => true
  | _ => false

theorem Lexeme.solid_of_token {b : UInt8} {s : List UInt8} {kind : TokenKind} {value : TokenValue}
    {n : Nat} (h : first? (b :: s) = some (.token kind value, n)) (hkind : kind.isBraced = false) :
    Ascii.isBlank b = false ∧ b ≠ Ascii.slash ∧ b ≠ Ascii.openBrace := by
  refine ⟨?_, ?_, ?_⟩
  · by_contra hb
    rw [Bool.not_eq_false] at hb
    rw [first_blank hb] at h
    cases h
  · rintro rfl
    rw [first_slash, ofSlash] at h
    split at h
    · cases h
    · split at h <;> cases h
  · rintro rfl
    rw [first?, startingWith, if_neg (by decide), if_neg (by decide), if_neg (by decide),
      if_pos rfl, ofBrace] at h
    split at h
    · cases h
    · cases h
      cases hkind

variable {service : PatternService} {w rest other slice : List UInt8} {kind : TokenKind}
  {value : TokenValue}

/-- What is read from a slice does not depend on the text behind the next
boundary. -/
theorem Scans.beyond (hrest : Boundary rest) (hother : Boundary other)
    (hkind : kind.isBraced = false) (h : Scans service (w ++ rest) slice kind value) :
    Scans service (w ++ other) slice kind value := by
  cases h with
  | token h =>
    obtain ⟨b, s, rfl⟩ : ∃ b s, slice = b :: s :=
      List.exists_cons_of_ne_nil (List.length_pos_iff.1 (Lexeme.first_pos h))
    obtain ⟨blank, slash, brace⟩ := Lexeme.solid_of_token h hkind
    have near {x : List UInt8} (hx : Boundary x) :
        Lexeme.first? (b :: s ++ (w ++ x)) = Lexeme.first? (b :: (s ++ w)) := by
      rw [← List.append_assoc]
      exact Lexeme.first_append hx blank slash brace (s ++ w)
    exact .token (((near hother).trans (near hrest).symm).trans h)
  | hexString => cases hkind
  | @literal form content ending modifiers hopen gathers closes =>
    have same := (closes.head_append (w ++ rest)).trans (closes.head_append (w ++ other)).symm
    exact .literal (Lexeme.literalOpening_congr (head_append content same) hopen)
      (gathers.congr same) (closes.beyond hother)

/-! ## Gaps -/

theorem Padding.boundary_append {text gap : List UInt8} (h : Padding text gap) (hgap : gap ≠ [])
    (after : List UInt8) : Boundary (gap ++ after) := by
  cases h with
  | nil => exact absurd rfl hgap
  | blank hb => exact Boundary.cons_iff.2 (.inl hb)
  | line | block => exact Boundary.cons_iff.2 (.inr rfl)

/-- A last gap is a boundary, whatever is put behind it in turn. -/
theorem Padding.boundary {text gap : List UInt8} (h : Padding text gap) {after : List UInt8}
    (hafter : Boundary after) : Boundary (gap ++ after) := by
  by_cases hgap : gap = []
  · subst hgap
    exact hafter
  · exact h.boundary_append hgap after

end RuleLex
