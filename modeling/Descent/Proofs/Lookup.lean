/-!
# Pairs by name

What is found by name in a list of pairs, such as the fields of a node or the members of an object.
-/

namespace Descent

variable {α β : Type} {name : String} {value : α} {pairs : List (String × α)}

theorem mem_of_lookup (h : pairs.lookup name = some value) : (name, value) ∈ pairs := by
  obtain ⟨l, r, rfl, -⟩ := List.lookup_eq_some_iff.1 h
  exact List.mem_append_right _ List.mem_cons_self

/-- Where no two pairs have one name, a pair is found by its name. -/
theorem lookup_eq_some_iff_mem (h : (pairs.map (·.1)).Nodup) :
    pairs.lookup name = some value ↔ (name, value) ∈ pairs := by
  refine ⟨mem_of_lookup, fun hm => ?_⟩
  induction pairs with
  | nil => cases hm
  | cons pair rest ih =>
    obtain ⟨n, v⟩ := pair
    obtain ⟨hnew, hrest⟩ := List.nodup_cons.1 (List.map_cons ▸ h)
    rcases List.mem_cons.1 hm with heq | hm
    · cases heq
      exact List.lookup_cons_self
    · have hn : name ≠ n := fun hn => hnew (hn ▸ List.mem_map_of_mem (f := (·.1)) hm)
      rw [List.lookup_cons, beq_false_of_ne hn]
      exact ih hrest hm

theorem lookup_map (f : α → β) (name : String) (pairs : List (String × α)) :
    (pairs.map fun pair => (pair.1, f pair.2)).lookup name = (pairs.lookup name).map f := by
  induction pairs with
  | nil => rfl
  | cons pair rest ih =>
    rw [List.map_cons, List.lookup_cons, List.lookup_cons, ih]
    cases name == pair.1 <;> rfl

end Descent
