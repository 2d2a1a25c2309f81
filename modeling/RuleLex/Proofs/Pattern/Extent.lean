/-
The language of the byte pattern recognizer.

`Braced` says what a byte pattern looks like from outside: an opening brace, one
or more items, a closing brace.  `extent?` finds the longest head of a text in
that language, `extent_iff_longest`.

The recognizer follows several readings of the text at once.  What ties it to
the language is the meaning of one reading: the rests of text that finish the
item it is in, add any further items, and close.  `Finishes` says so for an item
of which some bytes have been read, and `Admits` for a set of readings.  One byte
moves the readings the way it shortens the admitted rests, `admits_cons`.
-/
import RuleLex.Pattern.Extent
import RuleLex.Proofs.Comment

namespace RuleLex
namespace Pattern

/-! ## The language -/

/-- The bytes of a pattern outside comments. -/
def alphabet : List UInt8 := Ascii.bytes "0123456789ABCDEFabcdef-|?[]() \t\r\n"

/-- A byte of the alphabet, a line comment that may stop before the end of its
line, or a block comment. -/
inductive Item : List UInt8 → Prop
  | byte {b : UInt8} (h : b ∈ alphabet) : Item [b]
  | line {body : List UInt8} (h : Ascii.newline ∉ body) :
    Item (Ascii.slash :: Ascii.slash :: body)
  | block {body : List UInt8} (h : Comment.IsClosed body) :
    Item (Ascii.slash :: Ascii.star :: body)

/-- One or more items in braces. -/
def Braced (text : List UInt8) : Prop :=
  ∃ items : List (List UInt8), items ≠ [] ∧ (∀ i ∈ items, Item i) ∧
    text = Ascii.openBrace :: (items.flatten ++ [Ascii.closeBrace])

/-- The head of `n` bytes is the longest with a property. -/
def IsLongest (P : List UInt8 → Prop) (s : List UInt8) (n : Nat) : Prop :=
  n ≤ s.length ∧ P (s.take n) ∧ ∀ m, m ≤ s.length → P (s.take m) → m ≤ n

theorem isPatternByte_iff (b : UInt8) : isPatternByte b = true ↔ b ∈ alphabet := by
  have all : ∀ v : BitVec 8, isPatternByte ⟨v⟩ = true ↔ (⟨v⟩ : UInt8) ∈ alphabet := by
    decide +kernel
  exact all b.toBitVec

theorem slash_not_mem_alphabet : Ascii.slash ∉ alphabet := by decide

/-! ## What is left of a pattern -/

/-- Any number of items and the closing brace. -/
def Closing (s : List UInt8) : Prop :=
  ∃ items : List (List UInt8), (∀ i ∈ items, Item i) ∧ s = items.flatten ++ [Ascii.closeBrace]

/-- The rest of an item of which `read` has been read, then a closing. -/
def Finishes (read s : List UInt8) : Prop :=
  ∃ rest after, Item (read ++ rest) ∧ Closing after ∧ s = rest ++ after

theorem item_ne_nil {i : List UInt8} (h : Item i) : i ≠ [] := by
  cases h <;> simp

theorem not_closing_nil : ¬ Closing [] := by
  intro hs
  obtain ⟨items, -, h⟩ := hs
  simp at h

theorem not_finishes_nil (read : List UInt8) : ¬ Finishes read [] := by
  intro hs
  obtain ⟨rest, after, -, closing, h⟩ := hs
  obtain ⟨-, rfl⟩ := List.append_eq_nil_iff.1 h.symm
  exact not_closing_nil closing

/-- What begins with an item is one or more items and the closing brace. -/
theorem finishes_nil_iff {s : List UInt8} :
    Finishes [] s ↔
      ∃ items : List (List UInt8), items ≠ [] ∧ (∀ i ∈ items, Item i) ∧
        s = items.flatten ++ [Ascii.closeBrace] := by
  constructor
  · intro h
    obtain ⟨i, after, hi, ⟨items, hitems, rfl⟩, rfl⟩ := h
    exact ⟨i :: items, List.cons_ne_nil _ _, List.forall_mem_cons.2 ⟨hi, hitems⟩, by simp⟩
  · intro h
    obtain ⟨items, nonempty, hitems, rfl⟩ := h
    cases items with
    | nil => exact absurd rfl nonempty
    | cons i items =>
      obtain ⟨hi, hrest⟩ := List.forall_mem_cons.1 hitems
      exact ⟨i, items.flatten ++ [Ascii.closeBrace], hi, ⟨items, hrest, rfl⟩, by simp⟩

theorem closing_iff {s : List UInt8} :
    Closing s ↔ s = [Ascii.closeBrace] ∨ Finishes [] s := by
  rw [finishes_nil_iff]
  constructor
  · intro h
    obtain ⟨items, hitems, rfl⟩ := h
    by_cases hempty : items = []
    · rw [hempty]
      exact .inl rfl
    · exact .inr ⟨items, hempty, hitems, rfl⟩
  · intro h
    rcases h with rfl | ⟨items, -, hitems, rfl⟩
    · exact ⟨[], by simp, rfl⟩
    · exact ⟨items, hitems, rfl⟩

theorem braced_cons_iff {b : UInt8} {s : List UInt8} :
    Braced (b :: s) ↔ b = Ascii.openBrace ∧ Finishes [] s := by
  rw [finishes_nil_iff]
  constructor
  · intro h
    obtain ⟨items, nonempty, hitems, h⟩ := h
    obtain ⟨rfl, rfl⟩ := List.cons.inj h
    exact ⟨rfl, items, nonempty, hitems, rfl⟩
  · intro h
    obtain ⟨rfl, items, nonempty, hitems, rfl⟩ := h
    exact ⟨items, nonempty, hitems, rfl⟩

theorem not_braced_nil : ¬ Braced [] := by
  intro hs
  obtain ⟨items, -, -, h⟩ := hs
  cases h

/-! ## One byte further -/

theorem item_cons_iff {b : UInt8} {s : List UInt8} :
    Item (b :: s) ↔ (b ∈ alphabet ∧ s = []) ∨ (b = Ascii.slash ∧ Item (Ascii.slash :: s)) := by
  constructor
  · intro h
    cases h with
    | byte hb => exact .inl ⟨hb, rfl⟩
    | line hbody => exact .inr ⟨rfl, .line hbody⟩
    | block hbody => exact .inr ⟨rfl, .block hbody⟩
  · intro hs
    rcases hs with ⟨hb, rfl⟩ | ⟨rfl, h⟩
    · exact .byte hb
    · exact h

theorem item_slash_iff {s : List UInt8} :
    Item (Ascii.slash :: s) ↔
      (∃ body, s = Ascii.slash :: body ∧ Ascii.newline ∉ body) ∨
        ∃ body, s = Ascii.star :: body ∧ Comment.IsClosed body := by
  constructor
  · intro h
    cases h with
    | byte hb => exact absurd hb slash_not_mem_alphabet
    | line hbody => exact .inl ⟨_, rfl, hbody⟩
    | block hbody => exact .inr ⟨_, rfl, hbody⟩
  · intro h
    rcases h with ⟨body, rfl, hbody⟩ | ⟨body, rfl, hbody⟩
    · exact .line hbody
    · exact .block hbody

theorem item_line_iff {s : List UInt8} :
    Item (Ascii.slash :: Ascii.slash :: s) ↔ Ascii.newline ∉ s := by
  rw [item_slash_iff]
  simp [Ascii.slash, Ascii.star]

theorem item_block_iff {s : List UInt8} :
    Item (Ascii.slash :: Ascii.star :: s) ↔ Comment.IsClosed s := by
  rw [item_slash_iff]
  simp [Ascii.slash, Ascii.star]

theorem finishes_cons_iff {read s : List UInt8} {b : UInt8} :
    Finishes read (b :: s) ↔
      (Item read ∧ Closing (b :: s)) ∨ Finishes (read ++ [b]) s := by
  constructor
  · intro hs
    obtain ⟨rest, after, hitem, closing, h⟩ := hs
    cases rest with
    | nil =>
      rw [List.append_nil] at hitem
      exact .inl ⟨hitem, by rw [h]; exact closing⟩
    | cons c rest =>
      obtain ⟨rfl, rfl⟩ := List.cons.inj h
      exact .inr ⟨rest, after, by simpa using hitem, closing, rfl⟩
  · intro h
    rcases h with ⟨hitem, closing⟩ | ⟨rest, after, hitem, closing, rfl⟩
    · exact ⟨[], b :: s, by simpa using hitem, closing, rfl⟩
    · exact ⟨b :: rest, after, by simpa using hitem, closing, rfl⟩

theorem finishes_cons_of_not_item {read s : List UInt8} {b : UInt8} (h : ¬ Item read) :
    Finishes read (b :: s) ↔ Finishes (read ++ [b]) s := by
  rw [finishes_cons_iff, or_iff_right fun finished => h finished.1]

/-- Two items in hand that may end alike finish alike. -/
theorem finishes_congr {read read' s : List UInt8}
    (h : ∀ rest, Item (read ++ rest) ↔ Item (read' ++ rest)) :
    Finishes read s ↔ Finishes read' s := by
  constructor
  · intro hfinishes
    obtain ⟨rest, after, hitem, closing, rfl⟩ := hfinishes
    exact ⟨rest, after, (h rest).1 hitem, closing, rfl⟩
  · intro hfinishes
    obtain ⟨rest, after, hitem, closing, rfl⟩ := hfinishes
    exact ⟨rest, after, (h rest).2 hitem, closing, rfl⟩

theorem finishes_start_cons {b : UInt8} {s : List UInt8} :
    Finishes [] (b :: s) ↔
      (b ∈ alphabet ∧ Closing s) ∨ (b = Ascii.slash ∧ Finishes [Ascii.slash] s) := by
  rw [finishes_cons_of_not_item fun h => item_ne_nil h rfl]
  constructor
  · intro h
    obtain ⟨rest, after, hitem, closing, rfl⟩ := h
    rcases item_cons_iff.1 hitem with ⟨hb, hrest⟩ | ⟨rfl, hitem⟩
    · rw [List.append_eq] at hrest
      simp only [List.nil_append] at hrest
      exact .inl ⟨hb, by rw [hrest]; exact closing⟩
    · exact .inr ⟨rfl, rest, after, hitem, closing, rfl⟩
  · intro hs
    rcases hs with ⟨hb, closing⟩ | ⟨rfl, h⟩
    · exact ⟨[], s, .byte hb, closing, rfl⟩
    · exact h

theorem closing_cons {b : UInt8} {s : List UInt8} :
    Closing (b :: s) ↔
      (b = Ascii.closeBrace ∧ s = []) ∨ (b ∈ alphabet ∧ Closing s) ∨
        (b = Ascii.slash ∧ Finishes [Ascii.slash] s) := by
  rw [closing_iff, finishes_start_cons]
  simp

theorem finishes_slash_cons {b : UInt8} {s : List UInt8} :
    Finishes [Ascii.slash] (b :: s) ↔
      (b = Ascii.slash ∧ Finishes [Ascii.slash, Ascii.slash] s) ∨
        (b = Ascii.star ∧ Finishes [Ascii.slash, Ascii.star] s) := by
  have alone : ¬ Item [Ascii.slash] := by simp [item_slash_iff]
  rw [finishes_cons_of_not_item alone]
  constructor
  · intro h
    obtain ⟨rest, after, hitem, closing, rfl⟩ := h
    rcases item_slash_iff.1 hitem with ⟨body, hbody, -⟩ | ⟨body, hbody, -⟩
    · obtain ⟨rfl, -⟩ := List.cons.inj hbody
      exact .inl ⟨rfl, rest, after, hitem, closing, rfl⟩
    · obtain ⟨rfl, -⟩ := List.cons.inj hbody
      exact .inr ⟨rfl, rest, after, hitem, closing, rfl⟩
  · intro hs
    rcases hs with ⟨rfl, h⟩ | ⟨rfl, h⟩
    · exact h
    · exact h

/-- A line comment may stop before any byte, and goes over any byte but a
newline. -/
theorem finishes_line_cons {b : UInt8} {s : List UInt8} :
    Finishes [Ascii.slash, Ascii.slash] (b :: s) ↔
      Closing (b :: s) ∨ (b ≠ Ascii.newline ∧ Finishes [Ascii.slash, Ascii.slash] s) := by
  have whole : Item [Ascii.slash, Ascii.slash] := item_line_iff.2 List.not_mem_nil
  have further : Finishes [Ascii.slash, Ascii.slash, b] s ↔
      b ≠ Ascii.newline ∧ Finishes [Ascii.slash, Ascii.slash] s := by
    have item (rest : List UInt8) : Item (Ascii.slash :: Ascii.slash :: b :: rest) ↔
        b ≠ Ascii.newline ∧ Item (Ascii.slash :: Ascii.slash :: rest) := by
      rw [item_line_iff, item_line_iff, List.mem_cons, not_or]
      exact and_congr_left fun _ => ⟨Ne.symm, Ne.symm⟩
    simp only [Finishes, List.cons_append, List.nil_append, item, and_assoc, exists_and_left]
  rw [finishes_cons_iff]
  simp only [whole, true_and, List.cons_append, List.nil_append, further]

theorem not_item_block_nil : ¬ Item [Ascii.slash, Ascii.star] := by
  rw [item_block_iff]
  exact Comment.not_isClosed_nil

/-- A star in a block comment may begin the closer. -/
theorem finishes_block_cons {b : UInt8} {s : List UInt8} :
    Finishes [Ascii.slash, Ascii.star] (b :: s) ↔
      (b = Ascii.star ∧ Finishes [Ascii.slash, Ascii.star, Ascii.star] s) ∨
        (b ≠ Ascii.star ∧ Finishes [Ascii.slash, Ascii.star] s) := by
  rw [finishes_cons_of_not_item not_item_block_nil]
  simp only [List.cons_append, List.nil_append]
  by_cases hb : b = Ascii.star
  · subst hb
    simp
  · simp only [hb, false_and, false_or, ne_eq, not_false_eq_true, true_and]
    apply finishes_congr
    intro rest
    simp only [List.cons_append, List.nil_append]
    rw [item_block_iff, item_block_iff]
    exact Comment.isClosed_cons_of_ne_star hb

/-- After a star in a block comment a slash closes it, another star may, and
any other byte is inside again. -/
theorem finishes_star_cons {b : UInt8} {s : List UInt8} :
    Finishes [Ascii.slash, Ascii.star, Ascii.star] (b :: s) ↔
      (b = Ascii.slash ∧ Closing s) ∨
        (b = Ascii.star ∧ Finishes [Ascii.slash, Ascii.star, Ascii.star] s) ∨
          (b ≠ Ascii.star ∧ b ≠ Ascii.slash ∧ Finishes [Ascii.slash, Ascii.star] s) := by
  have unclosed : ¬ Item [Ascii.slash, Ascii.star, Ascii.star] := by
    rw [item_block_iff]
    exact Comment.not_isClosed_star
  rw [finishes_cons_of_not_item unclosed]
  simp only [List.cons_append, List.nil_append]
  by_cases hb : b = Ascii.slash
  · subst hb
    simp only [ne_eq, not_true_eq_false, false_and, and_false, or_false, true_and]
    have apart : ¬ Ascii.slash = Ascii.star := by decide
    simp only [apart, false_and, or_false]
    constructor
    · intro h
      obtain ⟨rest, after, hitem, closing, rfl⟩ := h
      rw [List.cons_append, List.cons_append, List.cons_append, List.cons_append,
        List.nil_append, item_block_iff, Comment.isClosed_closer_iff] at hitem
      rw [hitem]
      exact closing
    · intro closing
      exact ⟨[], s, item_block_iff.2 Comment.isClosed_pair, closing, rfl⟩
  · -- The star is forgotten, as if the comment had begun with the byte after it.
    have forget : Finishes [Ascii.slash, Ascii.star, Ascii.star, b] s ↔
        Finishes [Ascii.slash, Ascii.star] (b :: s) := by
      rw [finishes_cons_of_not_item not_item_block_nil]
      apply finishes_congr
      intro rest
      simp only [List.cons_append, List.nil_append]
      rw [item_block_iff, item_block_iff]
      exact Comment.isClosed_star_cons_of_ne_slash hb
    rw [forget, finishes_block_cons]
    simp [hb]

/-! ## Sets of readings -/

namespace Readings

/-- Some reading of the text so far goes on with the rest. -/
def Admits (r : Readings) (s : List UInt8) : Prop :=
  (r.atStart = true ∧ Finishes [] s) ∨ (r.afterItem = true ∧ Closing s) ∨
    (r.afterSlash = true ∧ Finishes [Ascii.slash] s) ∨
    (r.inLine = true ∧ Finishes [Ascii.slash, Ascii.slash] s) ∨
    (r.inBlock = true ∧ Finishes [Ascii.slash, Ascii.star] s) ∨
    (r.afterStar = true ∧ Finishes [Ascii.slash, Ascii.star, Ascii.star] s)

theorem not_admits_nil (r : Readings) : ¬ r.Admits [] := by
  simp [Admits, not_finishes_nil, not_closing_nil]

theorem not_admits_of_isDead {r : Readings} (h : r.isDead = true) (s : List UInt8) :
    ¬ r.Admits s := by
  simp only [isDead, Bool.not_eq_true', Bool.or_eq_false_iff] at h
  simp [Admits, h]

theorem admits_initial {s : List UInt8} : initial.Admits s ↔ Finishes [] s := by
  simp [Admits, initial]

/-- Where the pattern may close the rest may be over, and otherwise one byte
moves every reading on. -/
theorem admits_cons {r : Readings} {b : UInt8} {s : List UInt8} :
    r.Admits (b :: s) ↔ (r.closes b = true ∧ s = []) ∨ (r.next b).Admits s := by
  simp only [Admits, next, closes, itemBegins, itemEnds, finishes_start_cons, closing_cons,
    finishes_slash_cons, finishes_line_cons, finishes_block_cons, finishes_star_cons,
    Bool.and_eq_true, Bool.or_eq_true, beq_iff_eq, bne_iff_ne, isPatternByte_iff,
    Bool.false_eq_true, false_and, false_or, and_or_left, or_and_right, and_assoc]
  -- Both sides now list the same moves, by reading on the left and by rest on the right.
  apply Iff.of_eq
  ac_rfl

end Readings

/-! ## The longest pattern -/

theorem exists_isLongest {P : List UInt8 → Prop} {s : List UInt8} {n : Nat}
    (hn : n ≤ s.length) (h : P (s.take n)) : ∃ m, IsLongest P s m := by
  -- The induction is on how far the head is from being the whole text.
  induction hk : s.length - n using Nat.strongRecOn generalizing n with
  | ind k ih =>
    by_cases hlonger : ∃ m, m ≤ s.length ∧ P (s.take m) ∧ n < m
    · obtain ⟨m, hm, hP, hlt⟩ := hlonger
      exact ih (s.length - m) (by omega) hm hP rfl
    · refine ⟨n, hn, h, fun m hm hP => ?_⟩
      rcases Nat.lt_or_ge n m with hlt | hge
      · exact absurd ⟨m, hm, hP, hlt⟩ hlonger
      · exact hge

/-- Without an admitted head the best pattern is the one found before. -/
theorem extentFrom_of_none {r : Readings} {length : Nat} {best : Option Nat} {s : List UInt8}
    (h : ∀ m, m ≤ s.length → ¬ r.Admits (s.take m)) : extentFrom r length best s = best := by
  induction s generalizing r length with
  | nil => rfl
  | cons b s ih =>
    have open_ : ¬ r.closes b = true := fun hb =>
      h 1 (by simp) (Readings.admits_cons.2 (.inl ⟨hb, rfl⟩))
    have later : ∀ m, m ≤ s.length → ¬ (r.next b).Admits (s.take m) := fun m hm hadm =>
      h (m + 1) (by simp; omega) (Readings.admits_cons.2 (.inr hadm))
    simp only [extentFrom, open_, if_false, Bool.false_eq_true]
    split
    · rfl
    · exact ih later

theorem extentFrom_of_isLongest {r : Readings} {length n : Nat} {best : Option Nat}
    {s : List UInt8} (h : IsLongest r.Admits s n) :
    extentFrom r length best s = some (length + n) := by
  induction s generalizing r length best n with
  | nil =>
    rw [IsLongest, List.take_nil] at h
    exact absurd h.2.1 (Readings.not_admits_nil r)
  | cons b s ih =>
    obtain ⟨hn, hadm, hmax⟩ := h
    cases n with
    | zero => exact absurd hadm (Readings.not_admits_nil r)
    | succ n =>
      rw [List.length_cons, Nat.add_le_add_iff_right] at hn
      have later : ∀ m, m ≤ s.length → (r.next b).Admits (s.take m) → m ≤ n := fun m hm hnext =>
        Nat.le_of_succ_le_succ (hmax (m + 1) (by simp; omega)
          (Readings.admits_cons.2 (.inr hnext)))
      rw [List.take_succ_cons, Readings.admits_cons] at hadm
      simp only [extentFrom]
      by_cases hnext : (r.next b).Admits (s.take n)
      · have alive : ¬ (r.next b).isDead = true := fun hdead =>
          Readings.not_admits_of_isDead hdead _ hnext
        rw [if_neg alive, ih ⟨hn, hnext, later⟩]
        congr 1
        omega
      · -- Nothing later is admitted, so the pattern ends at this very brace.
        obtain ⟨hb, hnil⟩ : r.closes b = true ∧ s.take n = [] := by
          rcases hadm with hadm | hadm
          · exact hadm
          · exact absurd hadm hnext
        have hzero : n = 0 := by
          have := congrArg List.length hnil
          rw [List.length_take_of_le hn] at this
          exact this
        subst hzero
        have none_later : ∀ m, m ≤ s.length → ¬ (r.next b).Admits (s.take m) := fun m hm hadm => by
          have := later m hm hadm
          obtain rfl : m = 0 := by omega
          exact hnext hadm
        rw [if_pos hb]
        split
        · rfl
        · rw [extentFrom_of_none none_later]

/-- A pattern of `n` bytes begins where the readings start and admits `n - 1` of
the bytes behind the brace. -/
theorem isLongest_braced_cons {s : List UInt8} {n : Nat} :
    IsLongest Braced (Ascii.openBrace :: s) n ↔
      ∃ m, n = 1 + m ∧ IsLongest Readings.initial.Admits s m := by
  have heads : ∀ m, Braced ((Ascii.openBrace :: s).take (1 + m)) ↔
      Readings.initial.Admits (s.take m) := by
    intro m
    rw [Nat.add_comm, List.take_succ_cons, braced_cons_iff, Readings.admits_initial]
    simp
  constructor
  · intro h
    obtain ⟨hn, hbraced, hmax⟩ := h
    cases n with
    | zero => exact absurd hbraced not_braced_nil
    | succ n =>
      rw [Nat.add_comm] at hbraced
      refine ⟨n, Nat.add_comm n 1, by simpa using hn, (heads n).1 hbraced, fun m hm hadm => ?_⟩
      have := hmax (1 + m) (by simp; omega) ((heads m).2 hadm)
      omega
  · intro h
    obtain ⟨m, rfl, hm, hadm, hmax⟩ := h
    refine ⟨by simp; omega, (heads m).2 hadm, fun k hk hbraced => ?_⟩
    cases k with
    | zero => omega
    | succ k =>
      rw [Nat.add_comm] at hbraced
      have := hmax k (by simpa using hk) ((heads k).1 hbraced)
      omega

theorem not_braced_of_ne_openBrace {b : UInt8} {s : List UInt8} (hb : b ≠ Ascii.openBrace)
    (n : Nat) : ¬ Braced ((b :: s).take n) := by
  cases n with
  | zero => exact not_braced_nil
  | succ n =>
    rw [List.take_succ_cons, braced_cons_iff]
    exact fun h => hb h.1

theorem extent_of_isLongest {text : List UInt8} {n : Nat} (h : IsLongest Braced text n) :
    extent? text = some n := by
  cases text with
  | nil =>
    rw [IsLongest, List.take_nil] at h
    exact absurd h.2.1 not_braced_nil
  | cons b s =>
    by_cases hb : b = Ascii.openBrace
    · subst hb
      obtain ⟨m, rfl, hm⟩ := isLongest_braced_cons.1 h
      simp only [extent?, if_true]
      exact extentFrom_of_isLongest hm
    · exact absurd h.2.1 (not_braced_of_ne_openBrace hb n)

theorem extent_of_none {text : List UInt8}
    (h : ∀ n, n ≤ text.length → ¬ Braced (text.take n)) : extent? text = none := by
  cases text with
  | nil => rfl
  | cons b s =>
    simp only [extent?]
    split
    · rename_i hb
      subst hb
      apply extentFrom_of_none
      intro m hm hadm
      apply h (m + 1) (by simp; omega)
      rw [List.take_succ_cons, braced_cons_iff]
      exact ⟨rfl, Readings.admits_initial.1 hadm⟩
    · rfl

/-- The recognizer answers the length of the longest head of a text that is a
pattern, and answers nothing exactly when no head is one. -/
theorem extent_iff_longest (text : List UInt8) :
    (∀ n, extent? text = some n ↔ IsLongest Braced text n) ∧
      (extent? text = none ↔ ∀ n, n ≤ text.length → ¬ Braced (text.take n)) := by
  have found : ∀ n, extent? text = some n → IsLongest Braced text n := by
    intro n h
    by_cases hsome : ∃ k, k ≤ text.length ∧ Braced (text.take k)
    · obtain ⟨k, hk, hbraced⟩ := hsome
      obtain ⟨m, hm⟩ := exists_isLongest hk hbraced
      rw [extent_of_isLongest hm] at h
      cases h
      exact hm
    · rw [extent_of_none fun k hk hbraced => hsome ⟨k, hk, hbraced⟩] at h
      cases h
  refine ⟨fun n => ⟨found n, extent_of_isLongest⟩, fun h n hn hbraced => ?_, extent_of_none⟩
  obtain ⟨m, hm⟩ := exists_isLongest hn hbraced
  rw [extent_of_isLongest hm] at h
  cases h

end Pattern
end RuleLex
