/-
Flags there and back.

The text of a set of flags is made of pieces with bars between them: the names of declared
flags and one number for the other bits.  `ofStored_stored` says that reading it gives the
set again, whichever of the 256 sets it is.

The pieces are words, so a reader that cuts at the bars and takes off what is blank gets
them back, `trim_parts_intercalate`.  Each is read as the flags that it stands for, and
these are the set: `foldl_union_pieces`.
-/
import Mathlib.Data.List.TakeWhile
import RuleLex.Stored.Modifiers

namespace RuleLex
namespace Text

/-! ## Words with bars between them -/

/-- Text that has something in it, but neither white space nor a bar. -/
def IsWord (cs : List Char) : Prop := cs ≠ [] ∧ ∀ c ∈ cs, isBlank c = false ∧ c ≠ '|'

instance : DecidablePred IsWord := fun cs =>
  @instDecidableAnd _ _ inferInstance (List.decidableBAll _ cs)

variable {cs : List Char}

theorem IsWord.dropWhile_eq (h : IsWord cs) (rest : List Char) :
    (cs ++ rest).dropWhile isBlank = cs ++ rest := by
  obtain ⟨c, cs, rfl⟩ := List.exists_cons_of_ne_nil h.1
  have first : isBlank c = false := (h.2 c (List.mem_cons_self ..)).1
  rw [List.cons_append, List.dropWhile_cons_of_neg (by simp [first])]

theorem IsWord.reverse (h : IsWord cs) : IsWord cs.reverse :=
  ⟨by simpa using h.1, fun c hc => h.2 c (List.mem_reverse.1 hc)⟩

/-- White space behind a word is taken off. -/
theorem IsWord.trim_append (h : IsWord cs) (blank : List Char)
    (hblank : ∀ c ∈ blank, isBlank c = true) : trim (cs ++ blank) = cs := by
  have last := h.reverse.dropWhile_eq []
  rw [List.append_nil] at last
  rw [trim, h.dropWhile_eq, List.reverse_append, List.dropWhile_append_of_pos, last,
    List.reverse_reverse]
  exact fun c hc => hblank c (List.mem_reverse.1 hc)

theorem IsWord.trim_eq (h : IsWord cs) : trim cs = cs := by
  simpa using h.trim_append [] nofun

theorem IsWord.trim_ne_nil (h : IsWord cs) (rest : List Char) : trim (cs ++ rest) ≠ [] := by
  obtain ⟨c, hc⟩ := List.exists_mem_of_ne_nil cs h.1
  rw [trim, h.dropWhile_eq, ne_eq, List.reverse_eq_nil_iff, List.dropWhile_eq_nil_iff]
  intro blank
  have hblank := blank c (by simp [hc])
  rw [(h.2 c hc).1] at hblank
  cases hblank

theorem trim_space (cs : List Char) : trim (' ' :: cs) = trim cs := by
  rw [trim, trim, List.dropWhile_cons_of_pos (by decide)]

variable {separator : Char}

theorem parts_of_not_mem (h : separator ∉ cs) : parts separator cs = [cs] := by
  induction cs with
  | nil => rfl
  | cons c cs ih =>
    obtain ⟨hc, hcs⟩ := List.ne_and_not_mem_of_not_mem_cons h
    simp only [parts, ih hcs, if_neg (Ne.symm hc), List.headD_cons, List.tail_cons]

theorem parts_append_cons (h : separator ∉ cs) (rest : List Char) :
    parts separator (cs ++ separator :: rest) = cs :: parts separator rest := by
  induction cs with
  | nil => simp only [List.nil_append, parts, if_true]
  | cons c cs ih =>
    obtain ⟨hc, hcs⟩ := List.ne_and_not_mem_of_not_mem_cons h
    simp only [List.cons_append, parts, ih hcs, if_neg (Ne.symm hc), List.headD_cons,
      List.tail_cons]

theorem parts_ne_nil (separator : Char) (cs : List Char) : parts separator cs ≠ [] := by
  cases cs with
  | nil => exact List.cons_ne_nil _ _
  | cons c cs =>
    rw [parts]
    split <;> exact List.cons_ne_nil _ _

/-- A space at the head is in the first part, where it is taken off. -/
theorem map_trim_parts_space (cs : List Char) :
    (parts '|' (' ' :: cs)).map trim = (parts '|' cs).map trim := by
  obtain ⟨first, rest, hparts⟩ := List.exists_cons_of_ne_nil (parts_ne_nil '|' cs)
  have space : ' ' ≠ '|' := by decide
  simp only [parts, hparts, if_neg space, List.headD_cons, List.tail_cons, List.map_cons,
    trim_space]

variable {words : List (List Char)}

theorem trim_intercalate_ne_nil (hwords : words ≠ []) (h : ∀ w ∈ words, IsWord w) :
    trim ([' ', '|', ' '].intercalate words) ≠ [] := by
  obtain ⟨w, rest, rfl⟩ := List.exists_cons_of_ne_nil hwords
  have hw : IsWord w := h w (List.mem_cons_self ..)
  rcases eq_or_ne rest [] with rfl | several
  · rw [List.intercalate_singleton, hw.trim_eq]
    exact hw.1
  · rw [List.intercalate_cons_of_ne_nil several, List.append_assoc]
    exact hw.trim_ne_nil _

/-- What stands between the bars, without the white space around it, are the words. -/
theorem trim_parts_intercalate (hwords : words ≠ []) (h : ∀ w ∈ words, IsWord w) :
    (parts '|' ([' ', '|', ' '].intercalate words)).map trim = words := by
  have noBar {w : List Char} (hw : IsWord w) : '|' ∉ w := fun inside => (hw.2 _ inside).2 rfl
  induction words with
  | nil => exact absurd rfl hwords
  | cons w rest ih =>
    obtain ⟨hw, hrest⟩ := List.forall_mem_cons.1 h
    rcases eq_or_ne rest [] with rfl | several
    · rw [List.intercalate_singleton, parts_of_not_mem (noBar hw), List.map_singleton, hw.trim_eq]
    · have bar : [' ', '|', ' '].intercalate (w :: rest) =
          (w ++ [' ']) ++ '|' :: (' ' :: [' ', '|', ' '].intercalate rest) := by
        rw [List.intercalate_cons_of_ne_nil several]
        simp
      have front : '|' ∉ w ++ [' '] := by simp [noBar hw]
      rw [bar, parts_append_cons front, List.map_cons, hw.trim_append _ (by simp; decide),
        map_trim_parts_space, ih several hrest]

end Text

namespace Modifiers

/-! ## The pieces of a stored text -/

/-- The pieces of the text of a set of flags, with the flags each stands for. -/
def pieces (m : Modifiers) : List (List Char × Modifiers) :=
  ((declared.filter fun d => m.contains d.2).map fun d => (d.1.toList, d.2)) ++
    if m.undeclared = 0 then []
    else [('0' :: 'x' :: hexText m.undeclared, { bits := m.undeclared })]

theorem toList_stored (m : Modifiers) :
    m.stored.toList = [' ', '|', ' '].intercalate (m.pieces.map Prod.fst) := by
  have bar : " | ".toList = [' ', '|', ' '] := by decide
  rw [stored, String.toList_intercalate, bar, pieces]
  split <;> simp [Function.comp_def]

theorem foldl_union_pieces (m : Modifiers) : (m.pieces.map Prod.snd).foldl union empty = m := by
  have every : ∀ n : Fin 256,
      ((pieces ⟨.ofFin n⟩).map Prod.snd).foldl union empty = ⟨.ofFin n⟩ := by decide +kernel
  exact every m.bits.toFin

/-- A number is a word that stands for its bits. -/
theorem part_hexText (bits : UInt8) :
    Text.IsWord ('0' :: 'x' :: hexText bits) ∧
      part? ('0' :: 'x' :: hexText bits) = some { bits := bits } := by
  have every : ∀ n : Fin 256, Text.IsWord ('0' :: 'x' :: hexText (.ofFin n)) ∧
      part? ('0' :: 'x' :: hexText (.ofFin n)) = some { bits := .ofFin n } := by decide +kernel
  exact every bits.toFin

theorem part_of_mem_pieces {m : Modifiers} {p : List Char × Modifiers} (h : p ∈ m.pieces) :
    Text.IsWord p.1 ∧ part? p.1 = some p.2 := by
  have names : ∀ d ∈ declared,
      Text.IsWord d.1.toList ∧ part? d.1.toList = some d.2 := by decide
  rcases List.mem_append.1 h with h | h
  · obtain ⟨d, hd, rfl⟩ := List.mem_map.1 h
    exact names d (List.mem_filter.1 hd).1
  · split at h
    · cases h
    · obtain rfl := List.mem_singleton.1 h
      exact part_hexText m.undeclared

theorem foldlM_parts {ps : List (List Char × Modifiers)}
    (h : ∀ p ∈ ps, part? p.1 = some p.2) (m : Modifiers) :
    (ps.map Prod.fst).foldlM (fun m part => (part? part).map m.union) m =
      some ((ps.map Prod.snd).foldl union m) := by
  induction ps generalizing m with
  | nil => rfl
  | cons p ps ih =>
    obtain ⟨hp, hps⟩ := List.forall_mem_cons.1 h
    rw [List.map_cons, List.foldlM_cons, hp]
    exact ih hps (m.union p.2)

/-- Any set of flags is read back, also one with bits that are no declared flag. -/
theorem ofStored_stored (m : Modifiers) : ofStored? m.stored = some m := by
  have words : ∀ w ∈ m.pieces.map Prod.fst, Text.IsWord w := by
    intro w hw
    obtain ⟨p, hp, rfl⟩ := List.mem_map.1 hw
    exact (part_of_mem_pieces hp).1
  have union := foldl_union_pieces m
  rw [ofStored?, toList_stored]
  rcases eq_or_ne m.pieces [] with none | some
  · rw [none] at union ⊢
    rw [← union]
    rfl
  · have several : m.pieces.map Prod.fst ≠ [] := by simpa using some
    rw [if_neg (Text.trim_intercalate_ne_nil several words),
      Text.trim_parts_intercalate several words,
      foldlM_parts (fun p hp => (part_of_mem_pieces hp).2), union]

end Modifiers
end RuleLex
