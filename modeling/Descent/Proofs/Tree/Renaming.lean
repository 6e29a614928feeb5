import Descent.Grammar
import Descent.Proofs.Lookup

/-!
# Fields with other nodes

* `Field.map`, `Fields.map`: the same fields, with another node in the place of each.

Names and scalars stay as they are. So everything that is read from fields by name is the same, but
for the nodes, and the children are replaced one by one.
-/

namespace Descent

variable {f f' : NodeId → NodeId}

/-- A field with another node in the place of each. -/
def Field.map (f : NodeId → NodeId) : Field → Field
  | scalar value => scalar value
  | node id => node (f id)
  | list ids => list (ids.map f)

namespace Field

theorem children_map (f : NodeId → NodeId) (value : Field) :
    (value.map f).children = value.children.map f := by
  cases value <;> rfl

theorem map_congr {value : Field} (h : ∀ c ∈ value.children, f c = f' c) :
    value.map f = value.map f' := by
  cases value with
  | scalar json => rfl
  | node id => exact congrArg node (h id (List.mem_singleton_self _))
  | list ids => exact congrArg list (List.map_congr_left h)

end Field

namespace Fields

/-- Fields with another node in the place of each. -/
def map (f : NodeId → NodeId) (fields : Fields) : Fields :=
  ⟨fields.entries.map fun entry => (entry.1, entry.2.map f), by
    rw [List.map_map]
    exact fields.nodup⟩

theorem eq_of_entries_eq {fields fields' : Fields} (h : fields.entries = fields'.entries) :
    fields = fields' := by
  cases fields
  cases fields'
  cases h
  rfl

theorem map_congr {fields : Fields} (h : ∀ c ∈ fields.children, f c = f' c) :
    fields.map f = fields.map f' := by
  apply eq_of_entries_eq
  apply List.map_congr_left
  intro entry he
  have hvalue : entry.2.map f = entry.2.map f' :=
    Field.map_congr fun c hc => h c (List.mem_flatMap.2 ⟨entry, he, hc⟩)
  rw [hvalue]

theorem children_map (f : NodeId → NodeId) (fields : Fields) :
    (fields.map f).children = fields.children.map f := by
  simp only [children, map, List.flatMap_map, List.map_flatMap, Field.children_map]

variable (f) (fields : Fields) (name : String)

theorem get?_map : (fields.map f).get? name = (fields.get? name).map (Field.map f) :=
  lookup_map (Field.map f) name fields.entries

theorem scalar?_map : (fields.map f).scalar? name = fields.scalar? name := by
  rw [scalar?, scalar?, get?_map]
  rcases fields.get? name with _ | _ | _ | _ <;> rfl

theorem text_map : (fields.map f).text name = fields.text name := by
  rw [text, text, string?, string?, scalar?_map]

theorem node?_map : (fields.map f).node? name = (fields.node? name).map f := by
  rw [node?, node?, get?_map]
  rcases fields.get? name with _ | _ | _ | _ <;> rfl

theorem list_map : (fields.map f).list name = (fields.list name).map f := by
  rw [list, list, get?_map]
  rcases fields.get? name with _ | _ | _ | _ <;> rfl

end Fields
end Descent
