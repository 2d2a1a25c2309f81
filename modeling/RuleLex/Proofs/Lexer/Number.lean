/-
How far a number goes.

The forms of a number compete for the longest head.  `formText_longest` says that
the winner is a number; here it is shown that no number at the head of the text
is longer, `length_le_longest`, and that a text is a number of one form only, so
that the order in which the forms are tried does not matter.
-/
import RuleLex.Proofs.Lexer.Rule

namespace RuleLex
namespace Number

/-! ## Competing forms -/

/-- No form reaches further than the longest. -/
theorem le_longest {s : List UInt8} {c : Form × Nat} (h : c ∈ candidates s) :
    c.2 ≤ (longest s).2 := by
  simp only [candidates, List.mem_cons, List.not_mem_nil, or_false] at h
  simp only [longest, candidates, List.foldl_cons, List.foldl_nil]
  rcases h with rfl | rfl | rfl
  · split <;> split <;> split <;> omega
  · split <;> split <;> split <;> omega
  · split <;> split <;> split <;> omega

theorem length_le_runLength {test : UInt8 → Bool} {run : List UInt8}
    (h : ∀ b ∈ run, test b = true) (rest : List UInt8) :
    run.length ≤ Ascii.runLength test (run ++ rest) := by
  refine Ascii.le_runLength (by simp) ?_
  rw [List.take_left]
  exact h

theorem length_le_of_suffix {digits : List UInt8} {a : UInt8} {m : Nat} (rest : List UInt8)
    (hdigits : ∀ b ∈ digits, Ascii.isDigit b = true) (ha : Ascii.isDigit a = false)
    (hm : multiplier? (a :: Ascii.upperB :: rest) = some m) :
    (digits ++ [a, Ascii.upperB]).length ≤ (longest (digits ++ [a, Ascii.upperB] ++ rest)).2 := by
  have text : digits ++ [a, Ascii.upperB] ++ rest = digits ++ a :: Ascii.upperB :: rest := by simp
  have run : Ascii.runLength Ascii.isDigit (digits ++ a :: Ascii.upperB :: rest) =
      digits.length := by
    rw [Ascii.runLength, Ascii.takeWhile_append_of_stops hdigits (Ascii.stops_cons_iff.2 ha)]
  have decimal : (decimalCandidate (digits ++ a :: Ascii.upperB :: rest)).2 =
      digits.length + 2 := by simp only [decimalCandidate, run, List.drop_left, hm]
  have best := decimal_le_longest (digits ++ a :: Ascii.upperB :: rest)
  rw [text, List.length_append, List.length_cons, List.length_singleton]
  omega

theorem length_le_of_pointed {text whole places : List UInt8} (rest : List UInt8)
    (h : PointedText text whole places) : text.length ≤ (longest (text ++ rest)).2 := by
  obtain ⟨rfl, -, nonempty, hwhole, hplaces⟩ := h
  have stops : Ascii.Stops Ascii.isDigit (Ascii.dot :: (places ++ rest)) :=
    Ascii.stops_cons_iff.2 (by decide)
  have run : Ascii.runLength Ascii.isDigit (whole ++ Ascii.dot :: (places ++ rest)) =
      whole.length := by rw [Ascii.runLength, Ascii.takeWhile_append_of_stops hwhole stops]
  have reach := length_le_runLength hplaces rest
  have pos : 0 < places.length := List.length_pos_iff.2 nonempty
  have float : (floatCandidate (whole ++ Ascii.dot :: (places ++ rest))).2 =
      whole.length + 1 + Ascii.runLength Ascii.isDigit (places ++ rest) := by
    simp only [floatCandidate, run, List.drop_left, if_true, markedLength]
    rw [if_neg (by omega)]
  have best := le_longest (s := whole ++ Ascii.dot :: (places ++ rest)) (.head _)
  rw [List.append_assoc, List.cons_append, List.length_append, List.length_cons]
  omega

theorem length_le_of_mark {form : Form} {letter : UInt8} {test : UInt8 → Bool}
    {digits : List UInt8} (rest : List UInt8) (hdigits : ∀ b ∈ digits, test b = true)
    (nonempty : digits ≠ []) (h : ∀ s, radixCandidate form letter test s ∈ candidates s) :
    (Ascii.zero :: letter :: digits).length ≤
      (longest (Ascii.zero :: letter :: digits ++ rest)).2 := by
  have reach := length_le_runLength hdigits rest
  have pos : 0 < digits.length := List.length_pos_iff.2 nonempty
  have marked : (radixCandidate form letter test (Ascii.zero :: letter :: (digits ++ rest))).2 =
      2 + Ascii.runLength test (digits ++ rest) := by
    simp only [radixCandidate, and_self, if_true, markedLength]
    rw [if_neg (by omega)]
  have best := le_longest (h (Ascii.zero :: letter :: (digits ++ rest)))
  simp only [List.cons_append, List.length_cons]
  omega

/-- The longest form is at least as long as any number at the head of the text. -/
theorem length_le_longest {form : Form} {text : List UInt8} (h : FormText form text)
    (rest : List UInt8) : text.length ≤ (longest (text ++ rest)).2 := by
  cases h with
  | plain nonempty hdigits =>
    have run := length_le_runLength hdigits rest
    have decimal : Ascii.runLength Ascii.isDigit (text ++ rest) ≤
        (decimalCandidate (text ++ rest)).2 := by
      simp only [decimalCandidate]
      split <;> simp
    have best := decimal_le_longest (text ++ rest)
    omega
  | kilobytes nonempty hdigits => exact length_le_of_suffix rest hdigits (by decide) rfl
  | megabytes nonempty hdigits => exact length_le_of_suffix rest hdigits (by decide) rfl
  | float hpointed => exact length_le_of_pointed rest hpointed
  | hex nonempty hdigits =>
    exact length_le_of_mark rest hdigits nonempty fun _ => .tail _ (.head _)
  | octal nonempty hdigits =>
    exact length_le_of_mark rest hdigits nonempty fun _ => .tail _ (.tail _ (.head _))

/-! ## Lengths -/

theorem decimalCandidate_le_length (s : List UInt8) : (decimalCandidate s).2 ≤ s.length := by
  have run : Ascii.runLength Ascii.isDigit s ≤ s.length := Ascii.runLength_le_length _ _
  have behind := List.length_drop (i := Ascii.runLength Ascii.isDigit s) (l := s)
  simp only [decimalCandidate]
  split
  · rename_i m hm
    obtain ⟨rest, ⟨hs, -⟩ | ⟨hs, -⟩⟩ := multiplier_eq_some hm
    · rw [hs] at behind
      simp only [List.length_cons] at behind ⊢
      omega
    · rw [hs] at behind
      simp only [List.length_cons] at behind ⊢
      omega
  · exact run

theorem floatCandidate_le_length (s : List UInt8) : (floatCandidate s).2 ≤ s.length := by
  have behind := List.length_drop (i := Ascii.runLength Ascii.isDigit s) (l := s)
  simp only [floatCandidate]
  split
  · exact Nat.zero_le _
  · rename_i b rest hs
    have places : Ascii.runLength Ascii.isDigit rest ≤ rest.length := Ascii.runLength_le_length _ _
    rw [hs, List.length_cons] at behind
    simp only [markedLength]
    split
    · split
      · exact Nat.zero_le _
      · simp only
        omega
    · exact Nat.zero_le _

theorem radixCandidate_le_length (form : Form) (letter : UInt8) (test : UInt8 → Bool)
    (s : List UInt8) : (radixCandidate form letter test s).2 ≤ s.length := by
  unfold radixCandidate
  split
  · rename_i a b rest
    have digits : Ascii.runLength test rest ≤ rest.length := Ascii.runLength_le_length _ _
    simp only [markedLength, List.length_cons]
    split
    · split
      · exact Nat.zero_le _
      · simp only
        omega
    · exact Nat.zero_le _
  · exact Nat.zero_le _

theorem longest_le_length (s : List UInt8) : (longest s).2 ≤ s.length := by
  have step (best c : Form × Nat) (hbest : best.2 ≤ s.length) (hc : c.2 ≤ s.length) :
      (if best.2 < c.2 then c else best).2 ≤ s.length := by
    split
    · exact hc
    · exact hbest
  exact step _ _ (step _ _ (step _ _ (decimalCandidate_le_length s) (floatCandidate_le_length s))
    (radixCandidate_le_length _ _ _ s)) (radixCandidate_le_length _ _ _ s)

/-! ## One form for a text -/

/-- Behind its first digit a number without a mark goes on with a digit or with
what stands behind its digits. -/
theorem second_of_digits {digits suffix : List UInt8} {c : UInt8} (nonempty : digits ≠ [])
    (hdigits : ∀ b ∈ digits, Ascii.isDigit b = true) (hc : Ascii.isDigit c = false)
    (hsuffix : suffix.head? ≠ some c) : (digits ++ suffix)[1]? ≠ some c := by
  obtain ⟨d, more, rfl⟩ := List.exists_cons_of_ne_nil nonempty
  cases more with
  | nil =>
    rw [List.singleton_append, List.getElem?_cons_succ, ← List.head?_eq_getElem?]
    exact hsuffix
  | cons e more =>
    intro h
    have digit := hdigits e (by simp)
    rw [show e = c from Option.some.inj h, hc] at digit
    cases digit

/-- The second byte tells the marked forms, and a point tells the float. -/
theorem marks_of_formText {form : Form} {text : List UInt8} (h : FormText form text) :
    (text[1]? = some Ascii.lowerX ↔ Lexer.Rule.ofForm form = .hex) ∧
      (text[1]? = some Ascii.lowerO ↔ Lexer.Rule.ofForm form = .octal) ∧
        (Ascii.dot ∈ text ↔ Lexer.Rule.ofForm form = .float) := by
  have noPoint {test : UInt8 → Bool} {digits : List UInt8} (hdot : test Ascii.dot = false)
      (hdigits : ∀ b ∈ digits, test b = true) : Ascii.dot ∉ digits := by
    intro hmem
    rw [hdigits _ hmem] at hdot
    cases hdot
  cases h with
  | plain nonempty hdigits =>
    have second {c : UInt8} (hc : Ascii.isDigit c = false) : text[1]? ≠ some c := by
      rw [← List.append_nil text]
      exact second_of_digits nonempty hdigits hc (by simp)
    exact ⟨iff_of_false (second (by decide)) (by decide),
      iff_of_false (second (by decide)) (by decide),
      iff_of_false (noPoint (by decide) hdigits) (by decide)⟩
  | kilobytes nonempty hdigits | megabytes nonempty hdigits =>
    refine ⟨iff_of_false (second_of_digits nonempty hdigits (by decide) (by decide)) (by decide),
      iff_of_false (second_of_digits nonempty hdigits (by decide) (by decide)) (by decide),
      iff_of_false ?_ (by decide)⟩
    rw [List.mem_append]
    exact fun hmem => hmem.elim (noPoint (by decide) hdigits) (by decide)
  | @float _ whole places hpointed =>
    obtain ⟨rfl, nonempty, -, hwhole, -⟩ := hpointed
    have second {c : UInt8} (hc : Ascii.isDigit c = false) (hdot : c ≠ Ascii.dot) :
        (whole ++ Ascii.dot :: places)[1]? ≠ some c :=
      second_of_digits nonempty hwhole hc fun h => hdot (Option.some.inj h).symm
    exact ⟨iff_of_false (second (by decide) (by decide)) (by decide),
      iff_of_false (second (by decide) (by decide)) (by decide), iff_of_true (by simp) rfl⟩
  | @hex digits nonempty hdigits =>
    have apart : some Ascii.lowerX ≠ some Ascii.lowerO := by decide
    refine ⟨iff_of_true rfl rfl, iff_of_false apart (by decide), iff_of_false ?_ (by decide)⟩
    show Ascii.dot ∉ [Ascii.zero, Ascii.lowerX] ++ digits
    rw [List.mem_append]
    exact fun hmem => hmem.elim (by decide) (noPoint (by decide) hdigits)
  | @octal digits nonempty hdigits =>
    have apart : some Ascii.lowerO ≠ some Ascii.lowerX := by decide
    refine ⟨iff_of_false apart (by decide), iff_of_true rfl rfl, iff_of_false ?_ (by decide)⟩
    show Ascii.dot ∉ [Ascii.zero, Ascii.lowerO] ++ digits
    rw [List.mem_append]
    exact fun hmem => hmem.elim (by decide) (noPoint (by decide) hdigits)

theorem ofForm_unique {form form' : Form} {text : List UInt8} (h : FormText form text)
    (h' : FormText form' text) : Lexer.Rule.ofForm form = Lexer.Rule.ofForm form' := by
  obtain ⟨hhex, hoctal, hfloat⟩ := marks_of_formText h
  obtain ⟨hhex', hoctal', hfloat'⟩ := marks_of_formText h'
  have hex := hhex.symm.trans hhex'
  have octal := hoctal.symm.trans hoctal'
  have float := hfloat.symm.trans hfloat'
  cases form <;> cases form' <;> simp [Lexer.Rule.ofForm] at hex octal float ⊢

/-! ## Values -/

/-- A number is refused for its value alone. -/
theorem fault_of_evaluate {form : Form} {text : List UInt8} {fault : Fault}
    (h : evaluate form text = .error fault) :
    fault = .numberConversion text ∨ fault = .integerOverflow text := by
  have range {n : Nat} (hn : integer text n = .error fault) : fault = .numberConversion text := by
    unfold integer at hn
    split at hn
    · cases hn
    · cases hn
      rfl
  cases form with
  | hex => exact .inl (range h)
  | octal => exact .inl (range h)
  | float =>
    simp only [evaluate] at h
    split at h
    · cases h
    · cases h
      exact .inl rfl
  | decimal multiplier =>
    simp only [evaluate] at h
    split at h
    · cases h
      exact .inl rfl
    · split at h
      · cases h
        exact .inr rfl
      · cases h

/-- A number is an integer or a float. -/
theorem literal_of_evaluate {form : Form} {text : List UInt8} {literal : Literal}
    {value : TokenValue} (h : evaluate form text = .ok (literal, value)) :
    literal = .integer ∨ literal = .float := by
  have integral {n : Nat} (h : integer text n = .ok (literal, value)) : literal = .integer := by
    unfold integer at h
    split at h <;> cases h
    rfl
  cases form with
  | hex | octal => exact .inl (integral h)
  | float =>
    simp only [evaluate] at h
    split at h <;> cases h
    exact .inr rfl
  | decimal multiplier =>
    simp only [evaluate] at h
    split at h
    · cases h
    · split at h <;> cases h
      exact .inl rfl

end Number
end RuleLex
