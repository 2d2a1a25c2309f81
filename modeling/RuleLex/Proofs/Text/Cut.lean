/-
Cutting a text by its bytes.

`Text.cut` goes by characters.  A program that holds the bytes of a text cuts them at an
index, which must be a boundary between two characters or the cut splits one:
`boundaryFrom` steps back from the limit until it stands on one, and `cutBytes` cuts
there.  Both are checked, so stepping below zero or slicing out of range would trap.

In the bytes of a text the boundaries are the ends of its heads, `isBoundary_encode_iff`.
So the search finds the end of the longest head that fits, no more than three bytes below
the limit, and cutting by bytes is cutting by characters: `cutBytes_eq`.
-/
import RuleLex.Proofs.Checked.Basic
import RuleLex.Proofs.Utf8
import RuleLex.Text.Cut

namespace RuleLex
namespace Text

open Checked (ok_bind)

/-! ## Boundaries -/

/-- An index between two characters: an end of the text or in front of a byte that does
not continue a character. -/
def isBoundary (bytes : List UInt8) (i : Nat) : Bool :=
  i == 0 || i == bytes.length || bytes[i]?.any fun b => !isTail b

/-- The last boundary up to an index, one step back after the other. -/
def boundaryFrom (bytes : List UInt8) (i : Nat) : Checked Nat :=
  if isBoundary bytes i then pure i
  else
    match i with
    | 0 => .error .underflow
    | i + 1 => boundaryFrom bytes i

/-- Bytes that are within the limit as they are; of more the part up to the last boundary
within it, and three dots. -/
def cutBytes (limit : Nat) (bytes : List UInt8) : Checked (List UInt8) :=
  if limit < bytes.length then do
    let stop ← boundaryFrom bytes limit
    let head ← Checked.slice bytes 0 stop
    pure (head ++ Ascii.bytes "...")
  else pure bytes

/-- A byte of a character leads it or continues it.  The lead of an ASCII character is its
code. -/
theorem exists_lead (c : Char) :
    ∃ b tail, String.utf8EncodeChar c = b :: tail ∧
      (b.toNat = c.toNat ∧ c.toNat < 0x80 ∨ 0xC0 ≤ b.toNat) ∧ ∀ t ∈ tail, isTail t = true := by
  have tail (n : Nat) : isTail (UInt8.ofNat (n % 0x40 + 0x80)) = true := isTail_byte (by omega)
  have valid : c.toNat < 0xD800 ∨ 0xDFFF < c.toNat ∧ c.toNat < 0x110000 := c.valid
  have value : c.val.toNat = c.toNat := rfl
  unfold String.utf8EncodeChar
  rw [value]
  generalize c.toNat = v at valid
  simp only
  split
  · have lead := toNat_byte (n := v) (by omega)
    exact ⟨_, _, rfl, .inl ⟨lead, by omega⟩, List.forall_mem_nil _⟩
  · split
    · have lead := toNat_byte (n := v / 64 % 0x20 + 0xC0) (by omega)
      exact ⟨_, _, rfl, .inr (by omega), List.forall_mem_singleton.2 (tail _)⟩
    · split
      · have lead := toNat_byte (n := v / 4096 % 0x10 + 0xE0) (by omega)
        exact ⟨_, _, rfl, .inr (by omega),
          List.forall_mem_cons.2 ⟨tail _, List.forall_mem_singleton.2 (tail _)⟩⟩
      · have lead := toNat_byte (n := v / 262144 % 0x08 + 0xF0) (by omega)
        exact ⟨_, _, rfl, .inr (by omega), List.forall_mem_cons.2 ⟨tail _,
          List.forall_mem_cons.2 ⟨tail _, List.forall_mem_singleton.2 (tail _)⟩⟩⟩

theorem isTail_iff {b : UInt8} : isTail b = true ↔ 0x80 ≤ b.toNat ∧ b.toNat < 0xC0 := by
  rw [isTail, Bool.and_eq_true, decide_eq_true_iff, decide_eq_true_iff, UInt8.le_iff_toNat_le,
    UInt8.le_iff_toNat_le]
  exact and_congr_right fun _ => Nat.lt_succ_iff.symm

/-- A byte that leads a character continues none. -/
theorem isTail_lead {b : UInt8} {n : Nat} (h : b.toNat = n ∧ n < 0x80 ∨ 0xC0 ≤ b.toNat) :
    isTail b = false := by
  rw [← Bool.not_eq_true, isTail_iff]
  omega

/-- Where no character is below an ASCII one, no byte is. -/
theorem le_of_mem_encode {limit : Nat} (hlimit : limit ≤ 0x80) {cs : List Char}
    (h : ∀ c ∈ cs, limit ≤ c.toNat) {b : UInt8} (hb : b ∈ encode cs) : limit ≤ b.toNat := by
  obtain ⟨c, hc, hb⟩ := List.mem_flatMap.1 hb
  obtain ⟨lead, tail, hbytes, hlead, htail⟩ := exists_lead c
  rw [hbytes] at hb
  rcases List.mem_cons.1 hb with rfl | hb
  · have := h c hc
    omega
  · have := (isTail_iff.1 (htail b hb)).1
    omega

theorem encode_cons (c : Char) (cs : List Char) :
    encode (c :: cs) = String.utf8EncodeChar c ++ encode cs := List.flatMap_cons ..

theorem encode_append (cs ds : List Char) : encode (cs ++ ds) = encode cs ++ encode ds :=
  List.flatMap_append

theorem length_encode (cs : List Char) : (encode cs).length = byteCount cs := by
  induction cs with
  | nil => rfl
  | cons c cs ih => rw [encode_cons, List.length_append, String.length_utf8EncodeChar, ih, byteCount]

theorem length_toBytes (s : String) : (toBytes s).length = byteCount s.toList :=
  length_encode s.toList

/-- No text begins with a byte that continues a character. -/
theorem isTail_head_encode {cs : List Char} {b : UInt8} (h : (encode cs).head? = some b) :
    isTail b = false := by
  cases cs with
  | nil => cases h
  | cons c cs =>
    obtain ⟨lead, tail, hbytes, hlead, -⟩ := exists_lead c
    rw [encode_cons, hbytes] at h
    cases h
    exact isTail_lead hlead

/-- In the bytes of a text every boundary but the end is in front of a lead. -/
theorem isBoundary_iff_drop {cs : List Char} {i : Nat} :
    isBoundary (encode cs) i = true ↔
      i ≤ (encode cs).length ∧ ∀ b, ((encode cs).drop i).head? = some b → isTail b = false := by
  rw [List.head?_drop]
  by_cases hzero : i = 0
  · subst hzero
    rw [← List.head?_eq_getElem?]
    exact iff_of_true rfl ⟨Nat.zero_le _, fun b hb => isTail_head_encode hb⟩
  · rcases Nat.lt_trichotomy i (encode cs).length with inside | last | outside
    · simp [isBoundary, hzero, Nat.ne_of_lt inside, Nat.le_of_lt inside,
        List.getElem?_eq_getElem inside]
    · simp [isBoundary, last]
    · simp [isBoundary, hzero, Nat.ne_of_gt outside, Nat.not_le.2 outside,
        List.getElem?_eq_none (Nat.le_of_lt outside)]

/-- The boundaries in the bytes of a text are where its heads end. -/
theorem isBoundary_encode_iff {cs : List Char} {i : Nat} :
    isBoundary (encode cs) i = true ↔ ∃ q, q <+: cs ∧ (encode q).length = i := by
  rw [isBoundary_iff_drop]
  constructor
  · intro h
    induction cs generalizing i with
    | nil => exact ⟨[], List.nil_prefix, (Nat.le_zero.1 h.1).symm⟩
    | cons c cs ih =>
      by_cases hzero : i = 0
      · exact ⟨[], List.nil_prefix, hzero.symm⟩
      obtain ⟨lead, tail, hbytes, hlead, htail⟩ := exists_lead c
      rw [encode_cons] at h
      rcases Nat.lt_or_ge i (String.utf8EncodeChar c).length with inside | behind
      · -- Within a character the next byte continues it.
        obtain ⟨j, rfl⟩ := Nat.exists_eq_succ_of_ne_zero hzero
        rw [hbytes, List.length_cons, Nat.succ_lt_succ_iff] at inside
        have here : ((String.utf8EncodeChar c ++ encode cs).drop (j + 1)).head? =
            some tail[j] := by
          rw [hbytes, List.cons_append, List.drop_succ_cons, List.head?_drop,
            List.getElem?_append_left inside, List.getElem?_eq_getElem inside]
        have continues := htail _ (List.getElem_mem inside)
        rw [h.2 _ here] at continues
        cases continues
      · obtain ⟨j, rfl⟩ := Nat.exists_eq_add_of_le behind
        rw [List.length_append, Nat.add_le_add_iff_left, List.drop_length_add_append] at h
        obtain ⟨q, hq, hlength⟩ := ih h
        refine ⟨c :: q, List.cons_prefix_cons.2 ⟨rfl, hq⟩, ?_⟩
        rw [encode_cons, List.length_append, hlength]
  · rintro ⟨q, ⟨r, rfl⟩, rfl⟩
    rw [encode_append, List.drop_left]
    exact ⟨by simp, fun b hb => isTail_head_encode hb⟩

/-! ## The longest head that fits -/

theorem byteCount_append (cs ds : List Char) :
    byteCount (cs ++ ds) = byteCount cs + byteCount ds := by
  rw [← length_encode, ← length_encode, ← length_encode, encode_append, List.length_append]

theorem byteCount_le_of_prefix {q cs : List Char} (h : q <+: cs) : byteCount q ≤ byteCount cs := by
  obtain ⟨r, rfl⟩ := h
  rw [byteCount_append]
  exact Nat.le_add_right _ _

theorem fitting_prefix (limit : Nat) (cs : List Char) : fitting limit cs <+: cs := by
  induction cs generalizing limit with
  | nil => exact List.nil_prefix
  | cons c cs ih =>
    rw [fitting]
    split
    · exact List.cons_prefix_cons.2 ⟨rfl, ih _⟩
    · exact List.nil_prefix

/-- Every head that fits is a head of the longest one. -/
theorem prefix_fitting {limit : Nat} {q cs : List Char} (h : q <+: cs)
    (fits : byteCount q ≤ limit) : q <+: fitting limit cs := by
  induction cs generalizing limit q with
  | nil => exact h
  | cons c cs ih =>
    cases q with
    | nil => exact List.nil_prefix
    | cons d q =>
      obtain ⟨rfl, hq⟩ := List.cons_prefix_cons.1 h
      rw [byteCount] at fits
      rw [fitting, if_pos (by omega)]
      exact List.cons_prefix_cons.2 ⟨rfl, ih hq (by omega)⟩

/-- Of a text that does not fit less than a character's length is left free. -/
theorem le_byteCount_fitting {limit : Nat} {cs : List Char} (h : limit < byteCount cs) :
    limit ≤ byteCount (fitting limit cs) + 3 := by
  induction cs generalizing limit with
  | nil => exact absurd h (Nat.not_lt_zero _)
  | cons c cs ih =>
    have width := c.utf8Size_le_four
    rw [byteCount] at h
    rw [fitting]
    split
    · have := @ih (limit - c.utf8Size) (by omega)
      rw [byteCount]
      omega
    · rw [byteCount]
      omega

/-! ## Searching for a boundary -/

theorem boundaryFrom_eq {bytes : List UInt8} {k i : Nat} (h : isBoundary bytes k = true)
    (hk : k ≤ i) (last : ∀ m, isBoundary bytes m = true → m ≤ i → m ≤ k) :
    boundaryFrom bytes i = .ok k := by
  induction i with
  | zero =>
    obtain rfl : k = 0 := Nat.le_zero.1 hk
    rw [boundaryFrom, if_pos h]
    rfl
  | succ i ih =>
    rw [boundaryFrom]
    by_cases here : isBoundary bytes (i + 1) = true
    · rw [if_pos here, Nat.le_antisymm hk (last _ here (Nat.le_refl _))]
      rfl
    · have below : k ≤ i := by
        refine Nat.le_of_lt_succ (Nat.lt_of_le_of_ne hk ?_)
        rintro rfl
        exact here h
      rw [if_neg here]
      exact ih below fun m hm hle => last m hm (Nat.le_succ_of_le hle)

/-- The head that fits ends at the last boundary within the limit. -/
theorem last_boundary (limit : Nat) (cs : List Char) :
    isBoundary (encode cs) (byteCount (fitting limit cs)) = true ∧
      ∀ m, isBoundary (encode cs) m = true → m ≤ limit → m ≤ byteCount (fitting limit cs) := by
  refine ⟨isBoundary_encode_iff.2 ⟨_, fitting_prefix limit cs, length_encode _⟩, ?_⟩
  intro m hm hle
  obtain ⟨q, hq, rfl⟩ := isBoundary_encode_iff.1 hm
  rw [length_encode] at hle ⊢
  exact byteCount_le_of_prefix (prefix_fitting hq hle)

theorem boundaryFrom_encode (limit : Nat) (cs : List Char) :
    boundaryFrom (encode cs) limit = .ok (byteCount (fitting limit cs)) := by
  obtain ⟨boundary, last⟩ := last_boundary limit cs
  exact boundaryFrom_eq boundary (byteCount_fitting_le limit cs) last

theorem take_encode {q cs : List Char} (h : q <+: cs) :
    (encode cs).take (byteCount q) = encode q := by
  obtain ⟨r, rfl⟩ := h
  rw [encode_append, ← length_encode, List.take_left]

/-! ## Cutting -/

theorem cut_of_fits {limit : Nat} {s : String} (h : (toBytes s).length ≤ limit) :
    cut limit s = s := by
  rw [length_toBytes] at h
  rw [cut, if_pos h]

theorem cut_of_long {limit : Nat} {s : String} (h : limit < (toBytes s).length) :
    cut limit s = String.ofList (fitting limit s.toList) ++ "..." := by
  rw [length_toBytes] at h
  rw [cut, if_neg (Nat.not_le.2 h), String.ofList_append]

/-- The cut by bytes never traps and is the cut by characters. -/
theorem cutBytes_eq (limit : Nat) (s : String) :
    cutBytes limit (toBytes s) = .ok (toBytes (cut limit s)) := by
  rw [cutBytes]
  split
  · rename_i long
    have head := fitting_prefix limit s.toList
    have within := byteCount_le_of_prefix head
    rw [← length_encode s.toList] at within
    rw [cut_of_long long, toBytes_append, toBytes, boundaryFrom_encode, ok_bind,
      Checked.slice_eq (Nat.zero_le _) within, ok_bind, List.drop_zero, Nat.sub_zero,
      take_encode head, toBytes, String.toList_ofList]
    rfl
  · rename_i short
    rw [cut_of_fits (Nat.not_lt.1 short)]
    rfl

/-- Three dots are all that a cut adds to the limit. -/
theorem length_cut_le (limit : Nat) (s : String) : (toBytes (cut limit s)).length ≤ limit + 3 := by
  rcases Nat.lt_or_ge limit (toBytes s).length with long | short
  · have fits := byteCount_fitting_le limit s.toList
    have dots : (toBytes "...").length = 3 := by decide
    rw [cut_of_long long, toBytes_append, List.length_append, dots, length_toBytes,
      String.toList_ofList]
    omega
  · rw [cut_of_fits short]
    exact Nat.le_add_right_of_le short

end Text
end RuleLex
