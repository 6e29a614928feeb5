import Mathlib.Data.Multiset.UnionInter
import Descent.Proofs.Tree.Ownership

/-!
# Nodes without a parent

* `Tree.loose`: the nodes without a parent;
* `Tree.ofKind`: the nodes of a kind;
* `Tree.Below`: a node is below another.

Both collections hold every node once. A node that is appended joins both, and takes its children
out of the first. In a tree that keeps the ownership invariant every node is loose or below one
that is.
-/

namespace Descent.Tree

variable {t : Tree} {id p c : NodeId} {kind kind' : String} {start : Option Nat} {fields : Fields}

/-- The nodes that satisfy a test. -/
def select (t : Tree) (test : Node → Bool) : Multiset NodeId :=
  ((List.range t.size).map NodeId.mk).filter fun id => (t.node? id).any test

/-- The nodes without a parent. -/
def loose (t : Tree) : Multiset NodeId :=
  t.select (·.parent.isNone)

/-- The nodes of a kind. -/
def ofKind (t : Tree) (kind : String) : Multiset NodeId :=
  t.select (·.kind == kind)

theorem mem_select {test : Node → Bool} :
    id ∈ t.select test ↔ ∃ node, t.node? id = some node ∧ test node := by
  rw [select, Multiset.mem_coe, List.mem_filter, Option.any_eq_true]
  refine and_iff_right_of_imp fun ⟨node, hn, _⟩ => ?_
  exact List.mem_map.2 ⟨id.index, List.mem_range.2 (index_lt_of_node? hn), rfl⟩

theorem nodup_select (t : Tree) (test : Node → Bool) : (t.select test).Nodup := by
  refine Multiset.coe_nodup.2 (List.Nodup.filter _ (List.nodup_range.map fun i j h => ?_))
  exact congrArg NodeId.index h

theorem mem_loose : id ∈ t.loose ↔ ∃ node, t.node? id = some node ∧ node.parent = none := by
  simp [loose, mem_select]

theorem mem_ofKind : id ∈ t.ofKind kind ↔ ∃ node, t.node? id = some node ∧ node.kind = kind := by
  simp [ofKind, mem_select]

theorem loose_empty (kinds : List String) : (empty kinds).loose = 0 := rfl

theorem ofKind_empty (kinds : List String) : (empty kinds).ofKind kind = 0 := rfl

/-! ## Appending a node -/

/-- No node has the number that the next one will get. -/
private theorem node?_size (t : Tree) : t.node? ⟨t.size⟩ = none :=
  node?_eq_none_iff.2 (Nat.le_refl _)

private theorem nodup_add_new {ids : Multiset NodeId} (h : ids.Nodup) (hnew : ⟨t.size⟩ ∉ ids) :
    (ids + {⟨t.size⟩}).Nodup :=
  Multiset.nodup_add.2 ⟨h, Multiset.nodup_singleton _, Multiset.disjoint_singleton.2 hnew⟩

theorem mem_ofKind_append : id ∈ (t.append kind start fields).2.ofKind kind' ↔
    id ∈ t.ofKind kind' ∨ kind = kind' ∧ id = ⟨t.size⟩ := by
  rw [mem_ofKind, mem_ofKind, node?_append]
  split
  next hid =>
    obtain rfl : id = ⟨t.size⟩ := NodeId.eq_of_index_eq hid
    simp [node?_size]
  next hid =>
    have hne : id ≠ ⟨t.size⟩ := fun h => hid (congrArg NodeId.index h)
    rcases t.node? id with _ | node
    · simp [hne]
    · by_cases hchild : id ∈ fields.children <;> simp [hne, hchild, Node.childOf]

theorem mem_loose_append : id ∈ (t.append kind start fields).2.loose ↔
    id ∈ t.loose ∧ id ∉ fields.children ∨ id = ⟨t.size⟩ := by
  rw [mem_loose, mem_loose, node?_append]
  split
  next hid =>
    obtain rfl : id = ⟨t.size⟩ := NodeId.eq_of_index_eq hid
    simp
  next hid =>
    have hne : id ≠ ⟨t.size⟩ := fun h => hid (congrArg NodeId.index h)
    rcases t.node? id with _ | node
    · simp [hne]
    · by_cases hchild : id ∈ fields.children <;> simp [hne, hchild, Node.childOf]

theorem ofKind_append : (t.append kind start fields).2.ofKind kind' =
    t.ofKind kind' + if kind = kind' then {⟨t.size⟩} else 0 := by
  have hold : (t.ofKind kind').Nodup := t.nodup_select _
  have hnew : ⟨t.size⟩ ∉ t.ofKind kind' := by simp [mem_ofKind, node?_size]
  have hnodup : (t.ofKind kind' + if kind = kind' then {⟨t.size⟩} else 0).Nodup := by
    split
    · exact nodup_add_new hold hnew
    · rwa [Multiset.add_zero]
  refine (Multiset.Nodup.ext (nodup_select ..) hnodup).2 fun id => mem_ofKind_append.trans ?_
  rw [Multiset.mem_add]
  split <;> simp_all

/-- A new node takes its children out of the loose nodes and joins these. -/
theorem loose_append {rest : Multiset NodeId} (h : t.loose = rest + fields.children) :
    (t.append kind start fields).2.loose = rest + {⟨t.size⟩} := by
  have hloose : t.loose.Nodup := t.nodup_select _
  rw [h] at hloose
  obtain ⟨hrest, -, hdisjoint⟩ := Multiset.nodup_add.1 hloose
  have hmem (id : NodeId) : id ∈ rest ↔ id ∈ t.loose ∧ id ∉ fields.children := by
    rw [h, Multiset.mem_add, Multiset.mem_coe]
    refine ⟨fun hid => ⟨.inl hid, Multiset.disjoint_left.1 hdisjoint hid⟩, ?_⟩
    rintro ⟨hid | hid, hnot⟩
    · exact hid
    · exact absurd hid hnot
  have hnew : ⟨t.size⟩ ∉ rest := by simp [hmem, mem_loose, node?_size]
  refine (Multiset.Nodup.ext (nodup_select ..) (nodup_add_new hrest hnew)).2 fun id => ?_
  rw [Multiset.mem_add, Multiset.mem_singleton, hmem]
  exact mem_loose_append

/-! ## Looking up and down -/

/-- A node is the parent of another. -/
def Parent (t : Tree) (p c : NodeId) : Prop :=
  ∃ node, t.node? c = some node ∧ node.parent = some p

/-- A node is below another: the parents of the lower one lead to the upper one. -/
def Below (t : Tree) (upper lower : NodeId) : Prop :=
  Relation.TransGen t.Parent upper lower

/-- Every node is loose or below a loose one. -/
theorem Owned.exists_loose (h : t.Owned) (hid : id.index < t.size) :
    ∃ top ∈ t.loose, top = id ∨ t.Below top id := by
  obtain ⟨n, hn⟩ : ∃ n, t.size - id.index = n := ⟨_, rfl⟩
  induction n using Nat.strongRecOn generalizing id with
  | ind n ih =>
    obtain ⟨node, hnode⟩ := exists_node? hid
    cases hparent : node.parent with
    | none => exact ⟨id, mem_loose.2 ⟨node, hnode, hparent⟩, .inl rfl⟩
    | some p =>
      -- The parent has a larger number.
      have hr := (h.parent_iff hnode).1 hparent
      have hlt := h.below hr
      have hp := hr.index_lt
      have hstep : t.Parent p id := ⟨node, hnode, hparent⟩
      obtain ⟨top, htop, rfl | hbelow⟩ := ih (t.size - p.index) (by omega) hp rfl
      · exact ⟨top, htop, .inr (.single hstep)⟩
      · exact ⟨top, htop, .inr (hbelow.tail hstep)⟩

/-- Nothing is below a node without children. -/
theorem Owned.not_below (h : t.Owned) {node : Node} (hn : t.node? p = some node)
    (hnode : node.fields.children = []) : ¬t.Below p c := by
  intro hbelow
  obtain ⟨c', ⟨child, hchild, hparent⟩, -⟩ := Relation.TransGen.head'_iff.1 hbelow
  obtain ⟨node', hn', hmem⟩ := (h.parent_iff hchild).1 hparent
  obtain rfl : node = node' := Option.some.inj (hn.symm.trans hn')
  rw [hnode] at hmem
  cases hmem

end Descent.Tree
