import Descent.Tree
import Mathlib.Logic.Relation

/-!
# Growth of a tree

* `Tree.Free`: nodes that can become the children of a new one;
* `Tree.Extends`: a tree that has all nodes of another and perhaps more;
* `Tree.Keeps`: the same, but nodes may have found a parent;
* `Tree.ParsedAt`: a node of a kind that was parsed at an offset;
* `Tree.Step`, `Tree.Steps`: the ways in which a tree grows.

A tree changes by appending a node with free children, or by copying what is below a node.
-/

namespace Descent

theorem NodeId.eq_of_index_eq {a b : NodeId} (h : a.index = b.index) : a = b := by
  cases a
  cases b
  simp_all

/-- The same node under another parent. -/
def Node.childOf (node : Node) (parent : NodeId) : Node :=
  { node with parent := some parent }

namespace Tree

variable {t t' t'' : Tree} {id : NodeId} {node : Node} {kind : String} {start : Option Nat}
  {fields : Fields}

/-! ## Looking up nodes -/

theorem index_lt_of_node? (h : t.node? id = some node) : id.index < t.size :=
  (Array.getElem?_eq_some_iff.1 h).1

theorem exists_node? (h : id.index < t.size) : ∃ node, t.node? id = some node :=
  ⟨_, Array.getElem?_eq_getElem h⟩

theorem node?_eq_none_iff : t.node? id = none ↔ t.size ≤ id.index :=
  Array.getElem?_eq_none_iff

private theorem getElem?_adopt (parent : NodeId) (children : List NodeId) (nodes : Array Node)
    (i : Nat) :
    (children.foldl (fun nodes child => nodes.modify child.index (·.childOf parent)) nodes)[i]? =
      nodes[i]?.map fun node => if ⟨i⟩ ∈ children then node.childOf parent else node := by
  induction children generalizing nodes with
  | nil => simp
  | cons child children ih =>
    rw [List.foldl_cons, ih, Array.getElem?_modify]
    by_cases h : child.index = i
    · have hc : child = ⟨i⟩ := NodeId.eq_of_index_eq h
      subst hc
      cases nodes[i]? <;> simp [Node.childOf]
    · have hc : (⟨i⟩ : NodeId) ≠ child := fun he => h (he ▸ rfl)
      simp [h, hc]

private theorem size_adopt (parent : NodeId) (children : List NodeId) (nodes : Array Node) :
    (children.foldl (fun nodes child => nodes.modify child.index (·.childOf parent)) nodes).size =
      nodes.size := by
  induction children generalizing nodes with
  | nil => rfl
  | cons child children ih => rw [List.foldl_cons, ih, Array.size_modify]

private theorem fields_adopt (parent : NodeId) (children : List NodeId) (nodes : Array Node) :
    (children.foldl (fun nodes child => nodes.modify child.index (·.childOf parent))
      nodes).toList.map (·.fields) = nodes.toList.map (·.fields) := by
  apply List.ext_getElem?
  intro i
  rw [List.getElem?_map, Array.getElem?_toList, getElem?_adopt, List.getElem?_map,
    Array.getElem?_toList]
  cases nodes[i]? with
  | none => rfl
  | some node =>
    simp only [Option.map_some]
    split <;> rfl

/-! ## Appending a node -/

@[simp] theorem size_append : (t.append kind start fields).2.size = t.size + 1 := by
  have h := size_adopt ⟨t.size⟩ fields.children t.nodes
  exact (Array.size_push _).trans (congrArg (· + 1) h)

theorem node?_append :
    (t.append kind start fields).2.node? id =
      if id.index = t.size then some ⟨kind, start, fields, none⟩
      else (t.node? id).map fun node =>
        if id ∈ fields.children then node.childOf ⟨t.size⟩ else node := by
  have hsize := size_adopt ⟨t.size⟩ fields.children t.nodes
  have hget := getElem?_adopt ⟨t.size⟩ fields.children t.nodes id.index
  have hpush : (t.append kind start fields).2.node? id =
      ((fields.children.foldl
        (fun nodes child => nodes.modify child.index (·.childOf ⟨t.size⟩)) t.nodes).push
        ⟨kind, start, fields, none⟩)[id.index]? := rfl
  rw [hpush, Array.getElem?_push, hsize, hget]
  rfl

theorem node?_append_new :
    (t.append kind start fields).2.node? ⟨t.size⟩ = some ⟨kind, start, fields, none⟩ := by
  simp [node?_append]

theorem node?_append_old (h : t.node? id = some node) :
    (t.append kind start fields).2.node? id =
      some (if id ∈ fields.children then node.childOf ⟨t.size⟩ else node) := by
  have hlt := index_lt_of_node? h
  rw [node?_append, if_neg (Nat.ne_of_lt hlt), h, Option.map_some]

theorem fields_append :
    (t.append kind start fields).2.nodes.toList.map (·.fields) =
      t.nodes.toList.map (·.fields) ++ [fields] := by
  have h := fields_adopt ⟨t.size⟩ fields.children t.nodes
  have hpush : (t.append kind start fields).2.nodes =
      (fields.children.foldl (fun nodes child => nodes.modify child.index (·.childOf ⟨t.size⟩))
        t.nodes).push ⟨kind, start, fields, none⟩ := rfl
  rw [hpush, Array.toList_push, List.map_append, h]
  rfl

/-! ## Nodes that can become children -/

/-- Different nodes of a tree, none of which has a parent. -/
structure Free (t : Tree) (ids : List NodeId) : Prop where
  nodup : ids.Nodup
  present : ∀ id ∈ ids, ∃ node, t.node? id = some node ∧ node.parent = none

private theorem childFault?_seen {seen ids : List NodeId} :
    t.childFault? seen ids = none ↔ t.Free ids ∧ ∀ id ∈ ids, id ∉ seen := by
  induction ids generalizing seen with
  | nil => simpa [childFault?] using ⟨.nil, by simp⟩
  | cons id ids ih =>
    unfold childFault?
    constructor
    · intro h
      split at h
      · cases h
      next node hnode =>
        split at h
        · cases h
        next hok =>
          simp only [Bool.or_eq_true, Option.isSome_iff_ne_none, ne_eq, List.contains_iff_mem,
            not_or, Decidable.not_not] at hok
          obtain ⟨hfree, hseen⟩ := ih.1 h
          refine ⟨⟨List.nodup_cons.2 ⟨fun hm => ?_, hfree.nodup⟩, ?_⟩, ?_⟩
          · exact hseen id hm (List.mem_cons_self ..)
          · rintro a (_ | ⟨_, ha⟩)
            · exact ⟨node, hnode, hok.1⟩
            · exact hfree.present a ha
          · rintro a (_ | ⟨_, ha⟩)
            · exact hok.2
            · exact fun hm => hseen a ha (List.mem_cons_of_mem _ hm)
    · rintro ⟨hfree, hseen⟩
      obtain ⟨node, hnode, hparent⟩ := hfree.present id (List.mem_cons_self ..)
      obtain ⟨hid, hnodup⟩ := List.nodup_cons.1 hfree.nodup
      have hns : id ∉ seen := hseen id (List.mem_cons_self ..)
      simp only [hnode, hparent, Option.isSome_none, Bool.false_or, List.contains_iff_mem, hns,
        if_false]
      refine ih.2 ⟨⟨hnodup, fun a ha => hfree.present a (List.mem_cons_of_mem _ ha)⟩, ?_⟩
      rintro a ha (_ | ⟨_, hm⟩)
      · exact hid ha
      · exact hseen a (List.mem_cons_of_mem _ ha) hm

theorem childFault?_eq_none_iff {ids : List NodeId} :
    t.childFault? [] ids = none ↔ t.Free ids := by
  simp [childFault?_seen]

theorem graft_of_free (h : t.Free fields.children) :
    t.graft kind start fields = (.ok ⟨t.size⟩, (t.append kind start fields).2) := by
  simp only [graft, childFault?_eq_none_iff.2 h]
  rfl

theorem graft_of_not_free (h : ¬t.Free fields.children) :
    ∃ e, t.graft kind start fields = (.error e, t) := by
  unfold graft
  split
  next e _ => exact ⟨e, rfl⟩
  next hf => exact absurd (childFault?_eq_none_iff.1 hf) h

theorem Free.nil (t : Tree) : t.Free [] := ⟨.nil, by simp⟩

theorem Free.sublist {ids ids' : List NodeId} (h : t.Free ids) (hids : ids'.Sublist ids) :
    t.Free ids' :=
  ⟨hids.nodup h.nodup, fun id hid => h.present id (hids.subset hid)⟩

theorem Free.index_lt {ids : List NodeId} (h : t.Free ids) (hid : id ∈ ids) :
    id.index < t.size := by
  obtain ⟨node, hnode, _⟩ := h.present id hid
  exact index_lt_of_node? hnode

/-! ## Trees with more nodes -/

/-- All nodes of a tree are unchanged in another. -/
structure Extends (t t' : Tree) : Prop where
  kinds : t'.kinds = t.kinds
  node? : ∀ {id node}, t.node? id = some node → t'.node? id = some node

theorem Extends.refl (t : Tree) : t.Extends t := ⟨rfl, id⟩

theorem Extends.trans (h : t.Extends t') (h' : t'.Extends t'') : t.Extends t'' :=
  ⟨h'.kinds.trans h.kinds, fun hn => h'.node? (h.node? hn)⟩

theorem Extends.size_le (h : t.Extends t') : t.size ≤ t'.size := by
  refine Nat.le_of_not_lt fun hlt => ?_
  obtain ⟨node, hnode⟩ : ∃ node, t.node? ⟨t'.size⟩ = some node := exists_node? hlt
  exact Nat.lt_irrefl _ (index_lt_of_node? (h.node? hnode))

theorem Extends.of_node? (h : t.Extends t') (hid : id.index < t.size)
    (hn : t'.node? id = some node) : t.node? id = some node := by
  obtain ⟨old, hold⟩ := exists_node? hid
  rw [hold, ← h.node? hold, hn]

theorem Extends.free {ids : List NodeId} (h : t.Extends t') (hf : t.Free ids) : t'.Free ids :=
  ⟨hf.nodup, fun id hid =>
    let ⟨node, hnode, hparent⟩ := hf.present id hid
    ⟨node, h.node? hnode, hparent⟩⟩

/-- All nodes of a tree are in another with the same kind, start and fields. -/
structure Keeps (t t' : Tree) : Prop where
  kinds : t'.kinds = t.kinds
  node? : ∀ {id node}, t.node? id = some node →
    ∃ parent, t'.node? id = some { node with parent }

theorem Extends.keeps (h : t.Extends t') : t.Keeps t' :=
  ⟨h.kinds, fun hn => ⟨_, h.node? hn⟩⟩

theorem keeps_append : t.Keeps (t.append kind start fields).2 := by
  refine ⟨rfl, fun {id node} hn => ?_⟩
  rw [node?_append_old hn]
  split
  · exact ⟨some ⟨t.size⟩, rfl⟩
  · exact ⟨node.parent, rfl⟩

/-- A node is of a kind and was parsed from an offset. -/
def ParsedAt (t : Tree) (kind : String) (id : NodeId) (start : Nat) : Prop :=
  ∃ node, t.node? id = some node ∧ node.kind = kind ∧ node.start = some start

/-- Whatever happens to parents, a node stays what it was parsed as. -/
theorem ParsedAt.of_node? {start : Nat} (h : t.ParsedAt kind id start)
    (hnode : ∀ {node}, t.node? id = some node → ∃ parent, t'.node? id = some { node with parent }) :
    t'.ParsedAt kind id start := by
  obtain ⟨node, hn, hkind, hstart⟩ := h
  obtain ⟨parent, hn'⟩ := hnode hn
  exact ⟨_, hn', hkind, hstart⟩

theorem Keeps.parsedAt {start : Nat} (h : t.Keeps t') (hp : t.ParsedAt kind id start) :
    t'.ParsedAt kind id start :=
  hp.of_node? h.node?

/-- Free nodes of a tree that are not among its first `n`. -/
structure Fresh (n : Nat) (t : Tree) (ids : List NodeId) : Prop where
  free : t.Free ids
  le : ∀ id ∈ ids, n ≤ id.index

theorem Fresh.append {n : Nat} {ids ids' : List NodeId} (h : t.Fresh n ids) (hn : n ≤ t.size)
    (he : t.Extends t') (h' : t'.Fresh t.size ids') : t'.Fresh n (ids ++ ids') := by
  have hfree := he.free h.free
  refine ⟨⟨List.nodup_append.2 ⟨hfree.nodup, h'.free.nodup, ?_⟩, ?_⟩, ?_⟩
  · rintro a ha b hb rfl
    exact Nat.lt_irrefl _ (Nat.lt_of_lt_of_le (h.free.index_lt ha) (h'.le a hb))
  · intro id hid
    rcases List.mem_append.1 hid with hid | hid
    · exact hfree.present id hid
    · exact h'.free.present id hid
  · intro id hid
    rcases List.mem_append.1 hid with hid | hid
    · exact h.le id hid
    · exact Nat.le_trans hn (h'.le id hid)

/-- A node whose children are all new changes no old node. -/
theorem Extends.append (h : t.Extends t') (hf : t'.Fresh t.size fields.children) :
    t.Extends (t'.append kind start fields).2 := by
  refine ⟨h.kinds, fun {id node} hn => ?_⟩
  rw [node?_append_old (h.node? hn), if_neg]
  exact fun hm => Nat.lt_irrefl _ (Nat.lt_of_lt_of_le (index_lt_of_node? hn) (hf.le id hm))

theorem fresh_append_new (h : t.size ≤ t'.size) :
    (t'.append kind start fields).2.Fresh t.size [⟨t'.size⟩] := by
  refine ⟨⟨by simp, ?_⟩, ?_⟩
  · intro id hid
    obtain rfl := List.mem_singleton.1 hid
    exact ⟨_, node?_append_new, rfl⟩
  · intro id hid
    obtain rfl := List.mem_singleton.1 hid
    exact h

/-! ## Steps -/

/-- A tree grows by a node with free children, or by a copy of what is below a node. -/
inductive Step (t : Tree) : Tree → Prop
  | append (kind : String) (start : Option Nat) (fields : Fields) :
      kind ∈ t.kinds → t.Free fields.children → Step t (t.append kind start fields).2
  | copy (id : NodeId) : id.index < t.size → Step t (copyBelow id t).2

/-- Any number of steps. -/
def Steps : Tree → Tree → Prop := Relation.ReflTransGen Step

theorem Steps.refl (t : Tree) : Steps t t := Relation.ReflTransGen.refl

theorem Steps.trans (h : Steps t t') (h' : Steps t' t'') : Steps t t'' :=
  Relation.ReflTransGen.trans h h'

theorem graft_steps (hk : kind ∈ t.kinds) : Steps t (t.graft kind start fields).2 := by
  by_cases hf : t.Free fields.children
  · rw [graft_of_free hf]
    exact .single (.append _ _ _ hk hf)
  · obtain ⟨e, he⟩ : ∃ e, t.graft kind start fields = (.error e, t) := graft_of_not_free hf
    rw [he]
    exact .refl t

theorem insert_steps : Steps t (t.insert kind fields).2 := by
  unfold insert
  split
  next hk => exact graft_steps (List.contains_iff_mem.1 hk)
  next => exact .refl t

theorem copy_steps : Steps t (t.copy id).2 := by
  unfold copy
  split
  next hid => exact .single (.copy _ hid)
  next => exact .refl t

end Tree
end Descent
