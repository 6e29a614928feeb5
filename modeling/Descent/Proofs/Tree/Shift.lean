import Descent.Proofs.Tree.Growth
import Descent.Proofs.Tree.Renaming
import Mathlib.Data.List.Basic
import Mathlib.Data.List.Nodup

/-!
# Trees on top of others

* `NodeId.shift`, `Fields.shift`, `Node.shift`: nodes with larger numbers and offsets;
* `Tree.Onto`: a tree that has the nodes of one tree first and then those of another, shifted.

What is made of the nodes of the upper tree alone does not depend on the lower one.
-/

namespace Descent

/-- The node so many places further on. -/
def NodeId.shift (d : Nat) (id : NodeId) : NodeId :=
  ⟨id.index + d⟩

theorem NodeId.shift_injective (d : Nat) : Function.Injective (NodeId.shift d) := by
  intro a b h
  have hindex : a.index + d = b.index + d := congrArg NodeId.index h
  exact eq_of_index_eq (Nat.add_right_cancel hindex)

def Field.shift (d : Nat) : Field → Field
  | scalar value => scalar value
  | node id => node (id.shift d)
  | list ids => list (ids.map (NodeId.shift d))

/-- Fields that refer to nodes so many places further on. -/
def Fields.shift (d : Nat) (fields : Fields) : Fields :=
  ⟨fields.entries.map fun entry => (entry.1, entry.2.shift d), by
    rw [List.map_map]
    exact fields.nodup⟩

theorem Fields.shift_eq_map (d : Nat) (fields : Fields) :
    fields.shift d = fields.map (NodeId.shift d) := by
  apply eq_of_entries_eq
  apply List.map_congr_left
  rintro ⟨name, value⟩ -
  cases value <;> rfl

theorem Fields.children_shift (d : Nat) (fields : Fields) :
    (fields.shift d).children = fields.children.map (NodeId.shift d) := by
  rw [shift_eq_map, children_map]

/-- A node so many places further on, in a text that begins so many bytes earlier. -/
def Node.shift (d o : Nat) (node : Node) : Node where
  kind := node.kind
  start := node.start.map (· + o)
  fields := node.fields.shift d
  parent := node.parent.map (NodeId.shift d)

namespace Tree

/-- A tree has the nodes of `b` as they are, and after them those of `t₀`, as nodes of a text that
begins `o` bytes earlier. -/
structure Onto (b : Tree) (o : Nat) (t₀ t : Tree) : Prop where
  size : t.size = t₀.size + b.size
  old : ∀ id, id.index < b.size → t.node? id = b.node? id
  new : ∀ id, t.node? (id.shift b.size) = (t₀.node? id).map (Node.shift b.size o)

variable {b t₀ t : Tree} {o : Nat} {ids : List NodeId} {kind : String} {start : Nat}
  {fields : Fields}

theorem onto_empty (b : Tree) (o : Nat) (kinds : List String) : Onto b o (empty kinds) b where
  size := (Nat.zero_add _).symm
  old _ _ := rfl
  new _ := node?_eq_none_iff.2 (Nat.le_add_left ..)

namespace Onto

variable (h : Onto b o t₀ t)
include h

theorem free (hf : t₀.Free ids) : t.Free (ids.map (NodeId.shift b.size)) := by
  refine ⟨List.Nodup.map (NodeId.shift_injective b.size) hf.nodup, ?_⟩
  intro _ hmem
  obtain ⟨id, hid, rfl⟩ := List.mem_map.1 hmem
  obtain ⟨node, hnode, hparent⟩ := hf.present id hid
  refine ⟨node.shift b.size o, by rw [h.new, hnode]; rfl, ?_⟩
  rw [Node.shift, hparent]
  rfl

/-- A node is added to both trees alike. -/
theorem append : Onto b o (t₀.append kind (some start) fields).2
    (t.append kind (some (start + o)) (fields.shift b.size)).2 where
  size := by rw [size_append, size_append, h.size, Nat.add_right_comm]
  old id hid := by
    have hlt : id.index < t.size := h.size ▸ Nat.lt_of_lt_of_le hid (Nat.le_add_left ..)
    have hchild : id ∉ (fields.shift b.size).children := by
      rw [Fields.children_shift]
      intro hm
      obtain ⟨child, -, rfl⟩ := List.mem_map.1 hm
      exact Nat.not_lt_of_le (Nat.le_add_left ..) hid
    rw [node?_append, if_neg (Nat.ne_of_lt hlt), h.old id hid]
    simp [hchild]
  new id := by
    have hchild : id.shift b.size ∈ (fields.shift b.size).children ↔ id ∈ fields.children := by
      rw [Fields.children_shift, List.mem_map_of_injective (NodeId.shift_injective b.size)]
    have hlast : (id.shift b.size).index = t.size ↔ id.index = t₀.size := by
      rw [h.size]
      exact Nat.add_right_cancel_iff
    have hid : (⟨t.size⟩ : NodeId) = NodeId.shift b.size ⟨t₀.size⟩ := by
      rw [h.size]
      rfl
    rw [node?_append, node?_append]
    by_cases hnew : id.index = t₀.size
    · rw [if_pos hnew, if_pos (hlast.2 hnew)]
      rfl
    · rw [if_neg hnew, if_neg (mt hlast.1 hnew), h.new, Option.map_map, Option.map_map]
      refine congrArg (Option.map · _) ?_
      funext node
      simp only [Function.comp_apply, hchild, hid]
      split <;> rfl

/-- The nodes of a tree on another, in their order. -/
theorem nodes_eq :
    t.nodes.toList = b.nodes.toList ++ t₀.nodes.toList.map (Node.shift b.size o) := by
  apply List.ext_getElem?
  intro i
  rw [List.getElem?_append, List.getElem?_map, Array.length_toList, Array.getElem?_toList,
    Array.getElem?_toList, Array.getElem?_toList]
  by_cases hi : i < b.size
  · exact (h.old ⟨i⟩ hi).trans (if_pos hi).symm
  · have hnew := h.new ⟨i - b.size⟩
    have hindex : NodeId.shift b.size ⟨i - b.size⟩ = ⟨i⟩ := by
      rw [NodeId.shift, Nat.sub_add_cancel (Nat.le_of_not_lt hi)]
    rw [hindex] at hnew
    exact hnew.trans (if_neg hi).symm

end Onto
end Tree
end Descent
