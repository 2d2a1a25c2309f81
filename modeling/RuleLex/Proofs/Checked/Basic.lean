/-
Operations that may trap.

A program that works on the bytes of a source by their indices can go wrong in
ways a program on the text that is left cannot: an index can lie outside, a
difference below zero, a sum or a product outside its width, and an assertion can
fail.  Each of these is an operation here that traps where it would go wrong.
-/
import RuleLex.Proofs.Text

namespace RuleLex

/-- A way for an operation to go wrong. -/
inductive Trap where
  | outOfRange | underflow | overflow | assertion
deriving DecidableEq, Repr

/-- A computation that may trap. -/
abbrev Checked (α : Type) := Except Trap α

namespace Checked

/-- The bytes from one index up to another. -/
def slice (bytes : List UInt8) (start stop : Nat) : Checked (List UInt8) :=
  if start ≤ stop ∧ stop ≤ bytes.length then .ok ((bytes.take stop).drop start)
  else .error .outOfRange

/-- The bytes from an index on. -/
def sliceFrom (bytes : List UInt8) (start : Nat) : Checked (List UInt8) :=
  slice bytes start bytes.length

def sub (a b : Nat) : Checked Nat := if b ≤ a then .ok (a - b) else .error .underflow

/-- A sum in 32 bits. -/
def add32 (a b : Nat) : Checked Nat :=
  if a + b < UInt32.size then .ok (a + b) else .error .overflow

/-- A product below a bound. -/
def mulBelow (bound a b : Nat) : Checked Nat :=
  if a * b < bound then .ok (a * b) else .error .overflow

/-- An assertion. -/
def demand (p : Prop) [Decidable p] : Checked Unit := if p then .ok () else .error .assertion

variable {α β : Type}

theorem ok_bind (a : α) (f : α → Checked β) : (Except.ok a >>= f : Checked β) = f a := rfl

/-- A computation that has not trapped has come through its first part. -/
theorem exists_of_bind {x : Checked α} {f : α → Checked β} {r : β} (h : x >>= f = .ok r) :
    ∃ a, x = .ok a ∧ f a = .ok r := by
  cases x with
  | error trap => cases h
  | ok a => exact ⟨a, rfl, h⟩

theorem slice_eq {bytes : List UInt8} {start stop : Nat} (h : start ≤ stop)
    (hstop : stop ≤ bytes.length) :
    slice bytes start stop = .ok ((bytes.drop start).take (stop - start)) := by
  rw [slice, if_pos ⟨h, hstop⟩, List.drop_take]

theorem sliceFrom_eq {bytes : List UInt8} {start : Nat} (h : start ≤ bytes.length) :
    sliceFrom bytes start = .ok (bytes.drop start) := by
  rw [sliceFrom, slice, if_pos ⟨h, Nat.le_refl _⟩, List.take_length]

theorem sub_eq {a b : Nat} (h : b ≤ a) : sub a b = .ok (a - b) := if_pos h

theorem add32_eq {a b : Nat} (h : a + b < UInt32.size) : add32 a b = .ok (a + b) := if_pos h

theorem mulBelow_eq {bound a b : Nat} (h : a * b < bound) : mulBelow bound a b = .ok (a * b) :=
  if_pos h

theorem demand_eq {p : Prop} [Decidable p] (h : p) : demand p = .ok () := if_pos h

/-! ## Text by its indices -/

/-- The text behind a run. -/
theorem drop_runLength (test : UInt8 → Bool) (s : List UInt8) :
    s.drop (Ascii.runLength test s) = s.dropWhile test := by
  obtain ⟨run, rest, hs, -, -, hrun, hrest⟩ := Ascii.exists_run test s
  rw [Ascii.runLength, hrun, hrest, hs, List.drop_left]

theorem drop_eq_cons {bytes : List UInt8} {pos : Nat} {b : UInt8} (h : bytes[pos]? = some b) :
    bytes.drop pos = b :: bytes.drop (pos + 1) := by
  obtain ⟨hlt, rfl⟩ := List.getElem?_eq_some_iff.1 h
  exact List.drop_eq_getElem_cons hlt

theorem drop_eq_nil {bytes : List UInt8} {pos : Nat} (h : bytes[pos]? = none) :
    bytes.drop pos = [] :=
  List.drop_eq_nil_of_le (List.getElem?_eq_none_iff.1 h)

end Checked
end RuleLex
