/-
Runs of bytes and the numbers they spell.

A scanner takes the longest run of a class, which is the run in front of a byte
outside the class or the end of the text.  `Numeral` says which number a run of
decimal digits spells, by place value, and the usual decimal text of a number
spells it, `numeral_toString`.
-/
import Mathlib.Data.List.Basic
import Mathlib.Data.List.Induction
import Mathlib.Data.List.TakeWhile
import Mathlib.Data.Nat.Digits.Defs
import RuleLex.Ascii

namespace RuleLex
namespace Ascii

/-! ## Runs -/

/-- The text does not go on with a byte of the class. -/
def Stops (test : UInt8 → Bool) (s : List UInt8) : Prop :=
  ∀ b, s.head? = some b → test b = false

theorem stops_nil (test : UInt8 → Bool) : Stops test [] := by
  intro b h
  cases h

theorem stops_cons_iff {test : UInt8 → Bool} {b : UInt8} {s : List UInt8} :
    Stops test (b :: s) ↔ test b = false := by
  simp [Stops]

theorem takeWhile_of_stops {test : UInt8 → Bool} {s : List UInt8} (h : Stops test s) :
    s.takeWhile test = [] := by
  cases s with
  | nil => rfl
  | cons b s => rw [List.takeWhile_cons_of_neg (by simp [stops_cons_iff.1 h])]

theorem dropWhile_of_stops {test : UInt8 → Bool} {s : List UInt8} (h : Stops test s) :
    s.dropWhile test = s := by
  cases s with
  | nil => rfl
  | cons b s => rw [List.dropWhile_cons_of_neg (by simp [stops_cons_iff.1 h])]

theorem takeWhile_append_of_stops {test : UInt8 → Bool} {run rest : List UInt8}
    (hrun : ∀ b ∈ run, test b = true) (hrest : Stops test rest) :
    (run ++ rest).takeWhile test = run := by
  rw [List.takeWhile_append_of_pos hrun, takeWhile_of_stops hrest, List.append_nil]

theorem dropWhile_append_of_stops {test : UInt8 → Bool} {run rest : List UInt8}
    (hrun : ∀ b ∈ run, test b = true) (hrest : Stops test rest) :
    (run ++ rest).dropWhile test = rest := by
  rw [List.dropWhile_append_of_pos hrun, dropWhile_of_stops hrest]

/-- What stops a run behind a text leaves the runs in the text as they are. -/
theorem Stops.takeWhile_append {test : UInt8 → Bool} {rest : List UInt8} (h : Stops test rest)
    (s : List UInt8) : (s ++ rest).takeWhile test = s.takeWhile test := by
  induction s with
  | nil => exact takeWhile_of_stops h
  | cons b s ih =>
    by_cases hb : test b = true
    · rw [List.cons_append, List.takeWhile_cons_of_pos hb, List.takeWhile_cons_of_pos hb, ih]
    · rw [List.cons_append, List.takeWhile_cons_of_neg hb, List.takeWhile_cons_of_neg hb]

theorem stops_dropWhile (test : UInt8 → Bool) (s : List UInt8) :
    Stops test (s.dropWhile test) := by
  intro b h
  have := List.head?_dropWhile_not test s
  rw [h] at this
  simpa using this

theorem exists_run (test : UInt8 → Bool) (s : List UInt8) :
    ∃ run rest, s = run ++ rest ∧ (∀ b ∈ run, test b = true) ∧ Stops test rest ∧
      s.takeWhile test = run ∧ s.dropWhile test = rest :=
  ⟨s.takeWhile test, s.dropWhile test, List.takeWhile_append_dropWhile.symm,
    fun _ hb => List.mem_takeWhile_imp hb, stops_dropWhile test s, rfl, rfl⟩

theorem take_runLength (test : UInt8 → Bool) (s : List UInt8) :
    s.take (runLength test s) = s.takeWhile test :=
  (List.prefix_iff_eq_take.1 (List.takeWhile_prefix test)).symm

theorem runLength_le_length (test : UInt8 → Bool) (s : List UInt8) :
    runLength test s ≤ s.length :=
  (List.takeWhile_sublist test).length_le

theorem Stops.runLength_append {test : UInt8 → Bool} {rest : List UInt8} (h : Stops test rest)
    (s : List UInt8) : runLength test (s ++ rest) = runLength test s :=
  congrArg List.length (h.takeWhile_append s)

/-- A run that is a whole text stops behind it. -/
theorem runLength_eq_length_iff {test : UInt8 → Bool} {s rest : List UInt8} :
    runLength test (s ++ rest) = s.length ↔ (∀ b ∈ s, test b = true) ∧ Stops test rest := by
  constructor
  · intro h
    have whole : (s ++ rest).takeWhile test = s := by
      rw [← take_runLength, h, List.take_left]
    have run : ∀ b ∈ s, test b = true := fun b hb =>
      List.mem_takeWhile_imp (p := test) (l := s ++ rest) (by rw [whole]; exact hb)
    refine ⟨run, fun b hb => ?_⟩
    rw [List.takeWhile_append_of_pos run] at whole
    obtain ⟨t, rfl⟩ := List.head?_eq_some_iff.1 hb
    by_contra hpos
    rw [Bool.not_eq_false] at hpos
    rw [List.takeWhile_cons_of_pos hpos] at whole
    have lengths := congrArg List.length whole
    simp at lengths
  · rintro ⟨run, stops⟩
    rw [runLength, takeWhile_append_of_stops run stops]

theorem le_runLength {test : UInt8 → Bool} {s : List UInt8} {n : Nat} (hn : n ≤ s.length)
    (h : ∀ b ∈ s.take n, test b = true) : n ≤ runLength test s := by
  have split : s.takeWhile test = s.take n ++ (s.drop n).takeWhile test := by
    conv_lhs => rw [← List.take_append_drop n s]
    rw [List.takeWhile_append_of_pos h]
  rw [runLength, split, List.length_append, List.length_take_of_le hn]
  omega

/-! ## Numerals -/

/-- The value of a run of digits is the sum of its digits by place. -/
theorem numeral_eq_ofDigits (base : Nat) (digits : List UInt8) :
    numeral base digits = Nat.ofDigits base (digits.reverse.map hexValue) := by
  induction digits using List.reverseRecOn with
  | nil => rfl
  | append_singleton digits b ih =>
    have step : numeral base (digits ++ [b]) = numeral base digits * base + hexValue b := by
      simp [numeral]
    rw [step, ih, List.reverse_append, List.reverse_singleton, List.singleton_append,
      List.map_cons, Nat.ofDigits_cons, Nat.mul_comm, Nat.add_comm]

/-- A run of decimal digits that spells a number. -/
structure Numeral (digits : List UInt8) (value : Nat) : Prop where
  nonempty : digits ≠ []
  digit : ∀ b ∈ digits, isDigit b = true
  value_eq : Nat.ofDigits 10 (digits.reverse.map hexValue) = value

/-! ## Written text -/

/-- The bytes of characters that are known to be ASCII. -/
def ofChars (cs : List Char) : List UInt8 := cs.map fun c => c.toNat.toUInt8

theorem bytes_ofList (cs : List Char) : bytes (String.ofList cs) = ofChars cs := by
  rw [bytes, String.toList_ofList, ofChars]

theorem ofChars_append (cs ds : List Char) : ofChars (cs ++ ds) = ofChars cs ++ ofChars ds :=
  List.map_append

theorem isDigit_of_char {c : Char} (h : c.isDigit = true) :
    isDigit c.toNat.toUInt8 = true ∧ hexValue c.toNat.toUInt8 = c.toNat - '0'.toNat := by
  have bounds : 48 ≤ c.toNat ∧ c.toNat ≤ 57 := by
    simp only [Char.isDigit, ge_iff_le, Bool.and_eq_true, decide_eq_true_eq] at h
    exact h
  have all : ∀ i : Fin 10, isDigit (48 + i.1).toUInt8 = true ∧
      hexValue (48 + i.1).toUInt8 = 48 + i.1 - 48 := by decide
  obtain ⟨k, hk⟩ := Nat.exists_eq_add_of_le bounds.1
  rw [hk]
  exact all ⟨k, by omega⟩

theorem numeral_toString (n : Nat) : Numeral (ofChars (toString n).toList) n := by
  have chars : (toString n).toList = Nat.toDigits 10 n := Nat.toList_repr
  have digits : ∀ c ∈ Nat.toDigits 10 n, c.isDigit = true := fun c hc =>
    Nat.isDigit_of_mem_toDigits (by decide) (by decide) hc
  rw [chars]
  constructor
  · simp [ofChars]
  · intro b hb
    obtain ⟨c, hc, rfl⟩ := List.mem_map.1 hb
    exact (isDigit_of_char (digits c hc)).1
  · rw [← numeral_eq_ofDigits, numeral, ofChars, List.foldl_map]
    calc
      _ = Nat.ofDigitChars 10 (Nat.toDigits 10 n) 0 := by
        apply List.foldl_ext
        intro value c hc
        rw [(isDigit_of_char (digits c hc)).2, Nat.mul_comm]
      _ = n := Nat.ofDigitChars_toDigits (by decide) (by decide)

end Ascii
end RuleLex
