/-
The values of numbers.

A number that is no float has a base, digits and a multiplier, and `Whole` takes
it apart.  Its digits spell a natural number by place value, however many they
are, and `Ruled` says what has to become of the number: the product with the
multiplier where a token can hold it, one fault where the digits alone are too
large and another where only the product is.

`step_number` says that a step at a digit takes the longest number there and that
this is what becomes of it, and that the product is taken only where it fits.
-/
import RuleLex.Proofs.Checked.Scan
import RuleLex.Proofs.Lexer.Reprint

namespace RuleLex
namespace Number

/-- The largest integer of a token: sixty-three bits, all of them set. -/
def maxInteger : Nat := 0x7FFFFFFFFFFFFFFF

theorem maxInteger_lt_iff {n : Nat} : maxInteger < n ↔ bound ≤ n := by
  have next : bound = maxInteger + 1 := rfl
  omega

/-- The text of a number without a point, the base of its digits, the digits and
the multiplier of its suffix. -/
inductive Whole : List UInt8 → Nat → List UInt8 → Nat → Prop
  | plain {digits : List UInt8} (nonempty : digits ≠ [])
    (h : ∀ b ∈ digits, Ascii.isDigit b = true) : Whole digits 10 digits 1
  | kilobytes {digits : List UInt8} (nonempty : digits ≠ [])
    (h : ∀ b ∈ digits, Ascii.isDigit b = true) :
    Whole (digits ++ [Ascii.upperK, Ascii.upperB]) 10 digits 1024
  | megabytes {digits : List UInt8} (nonempty : digits ≠ [])
    (h : ∀ b ∈ digits, Ascii.isDigit b = true) :
    Whole (digits ++ [Ascii.upperM, Ascii.upperB]) 10 digits 1048576
  | hex {digits : List UInt8} (nonempty : digits ≠ [])
    (h : ∀ b ∈ digits, Ascii.isHexDigit b = true) :
    Whole (Ascii.zero :: Ascii.lowerX :: digits) 16 digits 1
  | octal {digits : List UInt8} (nonempty : digits ≠ [])
    (h : ∀ b ∈ digits, Ascii.isOctalDigit b = true) :
    Whole (Ascii.zero :: Ascii.lowerO :: digits) 8 digits 1

/-- The text of a number. -/
def IsNumber (text : List UInt8) : Prop :=
  (∃ base digits multiplier, Whole text base digits multiplier) ∨
    ∃ whole places, PointedText text whole places

/-- The number that digits spell in a base, by place value. -/
def placeValue (base : Nat) (digits : List UInt8) : Nat :=
  Nat.ofDigits base (digits.reverse.map Ascii.hexValue)

/-- What has to become of a number whose digits spell `n`. -/
structure Ruled (text : List UInt8) (n multiplier : Nat)
    (verdict : Except Fault (Literal × TokenValue)) : Prop where
  accepted : n * multiplier ≤ maxInteger ↔
    ∃ v : Int64, verdict = .ok (.integer, .integer v) ∧ v.toInt = n * multiplier
  unread : maxInteger < n ↔ verdict = .error (.numberConversion text)
  overflows : n ≤ maxInteger ∧ maxInteger < n * multiplier ↔ verdict = .error (.integerOverflow text)

/-! ## One form for a number -/

/-- The text behind the digits tells the multiplier. -/
theorem FormText.multiplier_eq {multiplier : Nat} {text : List UInt8}
    (h : FormText (.decimal multiplier) text) :
    (multiplier? (text.dropWhile Ascii.isDigit)).getD 1 = multiplier := by
  cases h with
  | plain nonempty hdigits =>
    have behind := Ascii.dropWhile_append_of_stops hdigits (Ascii.stops_nil _)
    rw [List.append_nil] at behind
    rw [behind]
    rfl
  | kilobytes nonempty hdigits | megabytes nonempty hdigits =>
    rw [Ascii.dropWhile_append_of_stops hdigits (Ascii.stops_cons_iff.2 (by decide))]
    rfl

/-- A text is a number of one form only, so the form decides what the digits and
the multiplier are. -/
theorem FormText.unique {form form' : Form} {text : List UInt8} (h : FormText form text)
    (h' : FormText form' text) : form = form' := by
  have rules := ofForm_unique h h'
  cases form with
  | decimal multiplier =>
    cases form' with
    | decimal multiplier' => rw [← h.multiplier_eq, h'.multiplier_eq]
    | _ => cases rules
  | float =>
    cases form' with
    | float => rfl
    | _ => cases rules
  | hex =>
    cases form' with
    | hex => rfl
    | _ => cases rules
  | octal =>
    cases form' with
    | octal => rfl
    | _ => cases rules

theorem isNumber_iff {text : List UInt8} : IsNumber text ↔ ∃ form, FormText form text := by
  constructor
  · intro h
    rcases h with ⟨base, digits, multiplier, h⟩ | ⟨whole, places, h⟩
    · cases h with
      | plain nonempty h => exact ⟨_, .plain nonempty h⟩
      | kilobytes nonempty h => exact ⟨_, .kilobytes nonempty h⟩
      | megabytes nonempty h => exact ⟨_, .megabytes nonempty h⟩
      | hex nonempty h => exact ⟨_, .hex nonempty h⟩
      | octal nonempty h => exact ⟨_, .octal nonempty h⟩
    · exact ⟨_, .float h⟩
  · rintro ⟨form, h⟩
    cases h with
    | plain nonempty h => exact .inl ⟨_, _, _, .plain nonempty h⟩
    | kilobytes nonempty h => exact .inl ⟨_, _, _, .kilobytes nonempty h⟩
    | megabytes nonempty h => exact .inl ⟨_, _, _, .megabytes nonempty h⟩
    | float h => exact .inr ⟨_, _, h⟩
    | hex nonempty h => exact .inl ⟨_, _, _, .hex nonempty h⟩
    | octal nonempty h => exact .inl ⟨_, _, _, .octal nonempty h⟩

/-! ## What becomes of a number -/

/-- What becomes of a number whose digits spell `n`, by comparing `n` and the
product themselves. -/
def verdict (text : List UInt8) (n multiplier : Nat) : Except Fault (Literal × TokenValue) :=
  if maxInteger < n then .error (.numberConversion text)
  else if maxInteger < n * multiplier then .error (.integerOverflow text)
  else .ok (.integer, .integer (Int64.ofNat (n * multiplier)))

theorem ruled_verdict (text : List UInt8) {n multiplier : Nat} (hpos : 0 < multiplier) :
    Ruled text n multiplier (verdict text n multiplier) := by
  have grows : n ≤ n * multiplier := Nat.le_mul_of_pos_right n hpos
  rcases Nat.lt_or_ge maxInteger n with large | small
  · have refused : verdict text n multiplier = .error (.numberConversion text) := if_pos large
    rw [refused]
    exact ⟨iff_of_false (by omega) nofun, iff_of_true large rfl, iff_of_false (by omega) nofun⟩
  · rcases Nat.lt_or_ge maxInteger (n * multiplier) with exceeds | fits
    · have refused : verdict text n multiplier = .error (.integerOverflow text) := by
        rw [verdict, if_neg (by omega), if_pos exceeds]
      rw [refused]
      exact ⟨iff_of_false (by omega) nofun, iff_of_false (by omega) nofun,
        iff_of_true ⟨small, exceeds⟩ rfl⟩
    · have taken : verdict text n multiplier =
          .ok (.integer, .integer (Int64.ofNat (n * multiplier))) := by
        rw [verdict, if_neg (by omega), if_neg (by omega)]
      have exact : (Int64.ofNat (n * multiplier)).toInt = n * multiplier := by
        rw [Int64.toInt_ofNat_of_lt (Nat.lt_succ_of_le fits)]
        exact Int.natCast_mul n multiplier
      rw [taken]
      exact ⟨iff_of_true fits ⟨_, rfl, exact⟩, iff_of_false (by omega) nofun,
        iff_of_false (by omega) nofun⟩

/-- Dividing the largest integer by the multiplier tells the same as multiplying
does. -/
theorem evaluate_decimal_eq {digits suffix : List UInt8} {multiplier : Nat}
    (hdigits : ∀ b ∈ digits, Ascii.isDigit b = true) (hsuffix : Ascii.Stops Ascii.isDigit suffix)
    (hpos : 0 < multiplier) :
    evaluate (.decimal multiplier) (digits ++ suffix) =
      verdict (digits ++ suffix) (placeValue 10 digits) multiplier := by
  have overflow : (bound - 1) / multiplier < placeValue 10 digits ↔
      maxInteger < placeValue 10 digits * multiplier := by
    have division := Nat.le_div_iff_mul_le (x := placeValue 10 digits) (y := maxInteger) hpos
    have same : bound - 1 = maxInteger := rfl
    rw [same]
    omega
  have value : Ascii.numeral 10 digits = placeValue 10 digits := Ascii.numeral_eq_ofDigits 10 digits
  simp only [evaluate, verdict, Ascii.takeWhile_append_of_stops hdigits hsuffix, value,
    ← maxInteger_lt_iff, overflow]

theorem integer_eq_verdict (text : List UInt8) (n : Nat) : integer text n = verdict text n 1 := by
  simp only [integer, verdict, Nat.mul_one, ite_not, ← Nat.not_le, ← maxInteger_lt_iff]
  split <;> rfl

theorem evaluate_whole {text digits : List UInt8} {base multiplier : Nat} {form : Form}
    (h : Whole text base digits multiplier) (hform : FormText form text) :
    evaluate form text = verdict text (placeValue base digits) multiplier := by
  cases h with
  | plain nonempty hdigits =>
    obtain rfl := hform.unique (.plain nonempty hdigits)
    have value := evaluate_decimal_eq hdigits (Ascii.stops_nil _) Nat.one_pos
    rwa [List.append_nil] at value
  | kilobytes nonempty hdigits =>
    obtain rfl := hform.unique (.kilobytes nonempty hdigits)
    exact evaluate_decimal_eq hdigits (Ascii.stops_cons_iff.2 (by decide)) (by decide)
  | megabytes nonempty hdigits =>
    obtain rfl := hform.unique (.megabytes nonempty hdigits)
    exact evaluate_decimal_eq hdigits (Ascii.stops_cons_iff.2 (by decide)) (by decide)
  | hex nonempty hdigits =>
    obtain rfl := hform.unique (.hex nonempty hdigits)
    rw [placeValue, ← Ascii.numeral_eq_ofDigits, ← integer_eq_verdict]
    rfl
  | octal nonempty hdigits =>
    obtain rfl := hform.unique (.octal nonempty hdigits)
    rw [placeValue, ← Ascii.numeral_eq_ofDigits, ← integer_eq_verdict]
    rfl

theorem Whole.multiplier_pos {text digits : List UInt8} {base multiplier : Nat}
    (h : Whole text base digits multiplier) : 0 < multiplier := by
  cases h <;> decide

/-- A number with a point is a float or is refused as a whole. -/
theorem evaluate_pointed {text whole places : List UInt8} {form : Form}
    (h : PointedText text whole places) (hform : FormText form text) :
    (∃ x, evaluate form text = .ok (.float, .float x)) ∨
      evaluate form text = .error (.numberConversion text) := by
  obtain rfl := hform.unique (.float h)
  simp only [evaluate]
  split
  · exact .inl ⟨_, rfl⟩
  · exact .inr rfl

/-- The head that the longest form takes is the longest number. -/
theorem isLongest_longest {b : UInt8} {s : List UInt8} (hb : Ascii.isDigit b = true) :
    Pattern.IsLongest IsNumber (b :: s) (longest (b :: s)).2 := by
  refine ⟨longest_le_length _, isNumber_iff.2 ⟨_, formText_longest hb⟩, fun m hm h => ?_⟩
  obtain ⟨form, hform⟩ := isNumber_iff.1 h
  have reach := length_le_longest hform ((b :: s).drop m)
  rwa [List.take_append_drop, List.length_take_of_le hm] at reach

end Number

namespace Lexer

open Number (IsNumber Whole FormText Ruled placeValue)

/-- A step that takes a number of `n` bytes and comes to a verdict on it. -/
structure TakesNumber (lx : Lexer) (n : Nat) (verdict : Except Fault (Literal × TokenValue)) :
    Prop where
  longest : Pattern.IsLongest IsNumber lx.rest n
  /-- The number is taken off the text whatever the verdict is. -/
  step_eq : lx.step =
    .answer (lx.consume n)
      (match verdict with
      | .ok (literal, value) =>
        .ok (tokenBetween lx.position (lx.consume n) (.literal literal) value)
      | .error fault => .error { line := lx.line, fault := fault }) []
  whole : ∀ base digits multiplier, Whole (lx.rest.take n) base digits multiplier →
    Ruled (lx.rest.take n) (placeValue base digits) multiplier verdict
  pointed : ∀ whole places, PointedText (lx.rest.take n) whole places →
    (∃ x, verdict = .ok (.float, .float x)) ∨
      verdict = .error (.numberConversion (lx.rest.take n))
  /-- With every slice and the product checked the verdict is the same. -/
  checked : ∀ form, FormText form (lx.rest.take n) →
    Indexed.evaluate form (lx.rest.take n) = .ok verdict

/-- At a digit a step takes the longest number.  An integer is exact or refused,
and a number with a point is a float or refused. -/
theorem step_number {lx : Lexer} {b : UInt8} {s : List UInt8} (hm : lx.mode = .initial)
    (hrest : lx.rest = b :: s) (hb : Ascii.isDigit b = true) :
    ∃ n verdict, TakesNumber lx n verdict := by
  rcases hlongest : Number.longest lx.rest with ⟨form, n⟩
  have longest : Pattern.IsLongest IsNumber lx.rest n := by
    have := Number.isLongest_longest (s := s) hb
    rwa [← hrest, hlongest] at this
  have text : FormText form (lx.rest.take n) := by
    have := Number.formText_longest (s := s) hb
    rwa [← hrest, hlongest] at this
  have first : Lexeme.first? lx.rest = some (Lexeme.ofNumber lx.rest) := by
    rw [hrest]
    exact Lexeme.first_digit hb s
  refine ⟨n, Number.evaluate form (lx.rest.take n), longest, ?_, ?_, ?_, ?_⟩
  · simp only [Lexeme.ofNumber, Number.scan, hlongest] at first
    cases hvalue : Number.evaluate form (lx.rest.take n) with
    | ok value =>
      rw [hvalue] at first
      have effect := effect_step hm first
      generalize lx.step = step at effect ⊢
      cases effect
      rfl
    | error fault =>
      rw [hvalue] at first
      have effect := effect_step hm first
      generalize lx.step = step at effect ⊢
      cases effect
      rfl
  · intro base digits multiplier hwhole
    rw [Number.evaluate_whole hwhole text]
    exact Number.ruled_verdict _ hwhole.multiplier_pos
  · exact fun whole places hpointed => Number.evaluate_pointed hpointed text
  · intro form' text'
    obtain rfl := text.unique text'
    exact Indexed.evaluate_eq text

/-- One more than the largest number of kilobytes. -/
theorem step_number_kilobytes :
    let text := Ascii.bytes "9007199254740992KB"
    let lx := new (text ++ Ascii.bytes "x") LexicalPreferences.builtin Pattern.parse
    lx.mode = .initial ∧ lx.rest.head?.any Ascii.isDigit = true ∧
      ∃ n, TakesNumber lx n (.error (.integerOverflow text)) := by
  intro text lx
  have takes : ∃ n verdict, TakesNumber lx n verdict := step_number rfl rfl (by decide)
  obtain ⟨n, verdict, takes⟩ := takes
  have digits : ∀ b ∈ Ascii.bytes "9007199254740992", Ascii.isDigit b = true :=
    List.all_eq_true.1 rfl
  have whole : Whole text 10 (Ascii.bytes "9007199254740992") 1024 :=
    .kilobytes (List.cons_ne_nil _ _) digits
  have length : n = 18 := by
    have left : lx.step.lexer.rest.length = 1 := by decide +kernel
    have fits : n ≤ 19 := takes.longest.1
    have taken : 19 - n = 1 := by
      rw [takes.step_eq] at left
      exact (length_consume lx n).symm.trans left
    omega
  subst length
  have ruled := takes.whole _ _ _ whole
  have refused := ruled.overflows.1 (by decide)
  rw [refused] at takes
  exact ⟨rfl, by decide, _, takes⟩

end Lexer
end RuleLex
