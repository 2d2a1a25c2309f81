/-
Members of an object by name.

Where no name is repeated, what is found by name is what has that name,
`find_name_eq_some_iff`.  So the order of the members does not matter, although the last
one of a name is the one that counts.
-/
import Mathlib.Data.List.Nodup
import RuleLex.Json.Basic

namespace RuleLex

theorem find_name_eq_some_iff {α : Type} {name : α → String} {as : List α}
    (distinct : (as.map name).Nodup) {s : String} {a : α} :
    as.find? (fun b => name b == s) = some a ↔ a ∈ as ∧ name a = s := by
  have of_find {b : α} (found : as.find? (fun b => name b == s) = some b) :
      b ∈ as ∧ name b = s :=
    have passes := List.find?_some found
    ⟨List.mem_of_find?_eq_some found, eq_of_beq passes⟩
  refine ⟨of_find, ?_⟩
  rintro ⟨ha, rfl⟩
  have there : (as.find? fun b => name b == name a).isSome = true :=
    List.find?_isSome.2 ⟨a, ha, beq_self_eq_true _⟩
  obtain ⟨b, found⟩ := Option.isSome_iff_exists.1 there
  obtain ⟨hb, same⟩ := of_find found
  rw [found, List.inj_on_of_nodup_map distinct hb ha same]

namespace Json

theorem member?_eq_some_iff {members : List (String × Json)} {name : String} {v : Json}
    (distinct : (members.map Prod.fst).Nodup) :
    member? members name = some v ↔ (name, v) ∈ members := by
  have reversed : (members.reverse.map Prod.fst).Nodup := by
    rw [List.map_reverse]
    exact List.nodup_reverse.2 distinct
  simp only [member?, Option.map_eq_some_iff, find_name_eq_some_iff reversed, List.mem_reverse]
  constructor
  · rintro ⟨m, ⟨inside, rfl⟩, rfl⟩
    exact inside
  · intro inside
    exact ⟨(name, v), ⟨inside, rfl⟩, rfl⟩

end Json
end RuleLex
