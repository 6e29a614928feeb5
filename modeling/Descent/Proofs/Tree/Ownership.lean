import Descent.Proofs.Tree.Growth
import Mathlib.Data.List.Nodup

/-!
# Ownership in a tree

A node owns the nodes that its fields refer to. The invariant `Tree.Owned` says that fields lead to
smaller numbers, that parent links are the converse of fields, and that no node is referred to
twice. Every step of a tree keeps it; a copy does because everything it appends is new.
-/

namespace Descent.Tree

variable {t t' t'' : Tree} {id p c : NodeId} {kind : String} {start : Option Nat}
  {fields : Fields}

/-- A node refers to another in its fields. -/
def Refers (t : Tree) (p c : NodeId) : Prop :=
  ∃ node, t.node? p = some node ∧ c ∈ node.fields.children

/-- Everything that nodes refer to, node by node. -/
def references (t : Tree) : List NodeId :=
  t.nodes.toList.flatMap fun node => node.fields.children

/-- **The ownership invariant.** -/
structure Owned (t : Tree) : Prop where
  below : ∀ {p c}, t.Refers p c → c.index < p.index
  parent_iff : ∀ {p c node}, t.node? c = some node → (node.parent = some p ↔ t.Refers p c)
  nodup : t.references.Nodup
  kind_mem : ∀ {id node}, t.node? id = some node → node.kind ∈ t.kinds

theorem Refers.index_lt (h : t.Refers p c) : p.index < t.size :=
  let ⟨_, hn, _⟩ := h
  index_lt_of_node? hn

theorem mem_references : c ∈ t.references ↔ ∃ p, t.Refers p c := by
  simp only [references, List.mem_flatMap, Array.mem_toList_iff, Refers]
  constructor
  · rintro ⟨node, hn, hc⟩
    obtain ⟨i, hi, rfl⟩ := Array.mem_iff_getElem.1 hn
    exact ⟨⟨i⟩, _, Array.getElem?_eq_getElem hi, hc⟩
  · rintro ⟨p, node, hn, hc⟩
    exact ⟨node, Array.mem_of_getElem? hn, hc⟩

theorem owned_empty (kinds : List String) : (empty kinds).Owned where
  below := fun ⟨_, hn, _⟩ => by cases hn
  parent_iff := fun hn => by cases hn
  nodup := .nil
  kind_mem := fun hn => by cases hn

namespace Owned

/-- A free node is no child yet. -/
theorem not_refers (h : t.Owned) {ids : List NodeId} (hf : t.Free ids) (hc : c ∈ ids) :
    ¬t.Refers p c := by
  intro hr
  obtain ⟨node, hn, hparent⟩ := hf.present c hc
  have := (h.parent_iff hn).2 hr
  rw [hparent] at this
  cases this

theorem child_lt_size (h : t.Owned) (hr : t.Refers p c) : c.index < t.size :=
  Nat.lt_trans (h.below hr) hr.index_lt

end Owned

/-! ## Appending a node -/

theorem refers_append :
    (t.append kind start fields).2.Refers p c ↔
      p = ⟨t.size⟩ ∧ c ∈ fields.children ∨ t.Refers p c := by
  simp only [Refers, node?_append]
  constructor
  · rintro ⟨node, hn, hc⟩
    split at hn
    next hp =>
      cases hn
      exact .inl ⟨NodeId.eq_of_index_eq hp, hc⟩
    next =>
      obtain ⟨old, ho, rfl⟩ := Option.map_eq_some_iff.1 hn
      refine .inr ⟨old, ho, ?_⟩
      split at hc <;> exact hc
  · rintro (⟨rfl, hc⟩ | ⟨node, hn, hc⟩)
    · exact ⟨_, if_pos rfl, hc⟩
    · rw [if_neg (Nat.ne_of_lt (index_lt_of_node? hn)), hn]
      refine ⟨_, rfl, ?_⟩
      split <;> exact hc

theorem references_append :
    (t.append kind start fields).2.references = t.references ++ fields.children := by
  have hmap : (t.append kind start fields).2.nodes.toList.map (·.fields) = _ := fields_append
  have hflat (nodes : List Node) : (nodes.flatMap fun node => node.fields.children) =
      (nodes.map (·.fields)).flatMap (·.children) := by rw [List.flatMap_map]
  rw [references, references, hflat, hmap, List.flatMap_append, ← hflat]
  simp

theorem Owned.append (h : t.Owned) (hk : kind ∈ t.kinds) (hf : t.Free fields.children) :
    (t.append kind start fields).2.Owned where
  below {p c} hr := by
    rcases refers_append.1 hr with ⟨rfl, hc⟩ | hr
    · exact hf.index_lt hc
    · exact h.below hr
  parent_iff {p c node} hn := by
    rw [refers_append]
    by_cases hc : c.index = t.size
    · rw [node?_append, if_pos hc] at hn
      cases hn
      refine ⟨nofun, ?_⟩
      rintro (⟨-, hm⟩ | hr)
      · exact absurd (hf.index_lt hm) (by omega)
      · exact absurd (h.child_lt_size hr) (by omega)
    · rw [node?_append, if_neg hc] at hn
      obtain ⟨old, ho, rfl⟩ := Option.map_eq_some_iff.1 hn
      by_cases hm : c ∈ fields.children
      · rw [if_pos hm]
        simp only [Node.childOf, Option.some.injEq, hm, and_true, h.not_refers hf hm, or_false,
          eq_comm]
      · rw [if_neg hm]
        simp only [hm, and_false, false_or]
        exact h.parent_iff ho
  nodup := by
    rw [references_append, List.nodup_append]
    refine ⟨h.nodup, hf.nodup, ?_⟩
    rintro a ha b hb rfl
    obtain ⟨p, hr⟩ := mem_references.1 ha
    exact h.not_refers hf hb hr
  kind_mem {id node} hn := by
    rw [node?_append] at hn
    split at hn
    · cases hn
      exact hk
    · obtain ⟨old, ho, rfl⟩ := Option.map_eq_some_iff.1 hn
      have hold := h.kind_mem ho
      split <;> exact hold

/-! ## Sprouting

What a parse or a copy adds: the old nodes stay as they are, the invariant is kept, and the nodes
it returns are new and free. -/

/-- A tree with more nodes, of which some new and free ones are returned. -/
structure Sprouts (t : Tree) (ids : List NodeId) (t' : Tree) : Prop where
  grows : t.Extends t'
  owned : t'.Owned
  fresh : t'.Fresh t.size ids

namespace Sprouts

theorem nil (h : t.Owned) : t.Sprouts [] t :=
  ⟨.refl t, h, .nil t, by simp⟩

theorem append {ids ids' : List NodeId} (h : t.Sprouts ids t') (h' : t'.Sprouts ids' t'') :
    t.Sprouts (ids ++ ids') t'' :=
  ⟨h.grows.trans h'.grows, h'.owned,
    h.fresh.append h.grows.size_le h'.grows h'.fresh⟩

theorem sublist {ids ids' : List NodeId} (h : t.Sprouts ids t') (hids : ids'.Sublist ids) :
    t.Sprouts ids' t' :=
  ⟨h.grows, h.owned, h.fresh.free.sublist hids, fun id hid => h.fresh.le id (hids.subset hid)⟩

/-- A node over what has sprouted. -/
theorem node (h : t.Sprouts fields.children t') (hk : kind ∈ t.kinds) :
    t.Sprouts [⟨t'.size⟩] (t'.append kind start fields).2 :=
  ⟨h.grows.append h.fresh, h.owned.append (h.grows.kinds ▸ hk) h.fresh.free,
    fresh_append_new h.grows.size_le⟩

end Sprouts

section
variable {replace : NodeId → Tree → NodeId × Tree}

/-- Replacing a node of `t` sprouts its replacement, in every tree that has the nodes of `t`. -/
def Replaces (replace : NodeId → Tree → NodeId × Tree) (t : Tree) (id : NodeId) : Prop :=
  ∀ t', t.Extends t' → t'.Owned → t'.Sprouts [(replace id t').1] (replace id t').2

theorem Replaces.mono (h : Replaces replace t id) (he : t.Extends t') : Replaces replace t' id :=
  fun t'' he' ho => h t'' (he.trans he') ho

theorem Replaces.all {ids : List NodeId} (h : ∀ id ∈ ids, Replaces replace t id) (ho : t.Owned) :
    t.Sprouts (NodeId.replaceAll replace ids t).1 (NodeId.replaceAll replace ids t).2 := by
  induction ids generalizing t with
  | nil => exact .nil ho
  | cons id ids ih =>
    have hid := h id (List.mem_cons_self ..) t (.refl t) ho
    have hids := ih (fun a ha => (h a (List.mem_cons_of_mem _ ha)).mono hid.grows) hid.owned
    exact hid.append hids

theorem Replaces.field {value : Field} (h : ∀ id ∈ value.children, Replaces replace t id)
    (ho : t.Owned) :
    t.Sprouts (value.replace replace t).1.children (value.replace replace t).2 := by
  cases value with
  | scalar json => exact .nil ho
  | node id => exact h id (List.mem_singleton_self _) t (.refl t) ho
  | list ids => exact Replaces.all h ho

theorem Replaces.entries {entries : List (String × Field)}
    (h : ∀ id ∈ entries.flatMap (·.2.children), Replaces replace t id) (ho : t.Owned) :
    t.Sprouts ((Fields.replaceEntries replace entries t).1.flatMap (·.2.children))
      (Fields.replaceEntries replace entries t).2 := by
  induction entries generalizing t with
  | nil => exact .nil ho
  | cons entry rest ih =>
    obtain ⟨name, value⟩ := entry
    have hvalue : t.Sprouts (value.replace replace t).1.children (value.replace replace t).2 :=
      Replaces.field (fun id hid => h id (by simp [hid])) ho
    have hrest := ih (t := (value.replace replace t).2)
      (fun id hid => (h id (by
        rw [List.flatMap_cons]
        exact List.mem_append_right _ hid)).mono hvalue.grows) hvalue.owned
    exact hvalue.append hrest

end

/-- A copy of what is below a node sprouts the copied node. -/
theorem Owned.copyBelow_sprouts (h : t.Owned) (hid : id.index < t.size) :
    t.Sprouts [(copyBelow id t).1] (copyBelow id t).2 := by
  obtain ⟨n, hn⟩ : ∃ n, id.index = n := ⟨_, rfl⟩
  induction n using Nat.strongRecOn generalizing t id with
  | ind n ih =>
    obtain ⟨node, hnode⟩ := exists_node? hid
    have hchild : ∀ c ∈ node.fields.children,
        Replaces (fun child t => if child.index < id.index then copyBelow child t else (child, t))
          t c := by
      intro c hc t' he ho
      have hlt : c.index < id.index := h.below ⟨node, hnode, hc⟩
      have hsize : c.index < t'.size :=
        Nat.lt_of_lt_of_le (Nat.lt_trans hlt hid) he.size_le
      simp only [hlt, if_true]
      exact ih c.index (hn ▸ hlt) ho hsize rfl
    have hfields := Replaces.entries hchild h
    rw [copyBelow]
    simp only [hnode]
    exact hfields.node (h.kind_mem hnode)

/-! ## Every step keeps the invariant -/

theorem Step.owned (h : Step t t') (ho : t.Owned) : t'.Owned ∧ t'.kinds = t.kinds := by
  cases h with
  | append _ _ _ hk hf => exact ⟨ho.append hk hf, rfl⟩
  | copy _ hid =>
    have hs := ho.copyBelow_sprouts hid
    exact ⟨hs.owned, hs.grows.kinds⟩

theorem Steps.owned (h : Steps t t') (ho : t.Owned) : t'.Owned ∧ t'.kinds = t.kinds := by
  induction h with
  | refl => exact ⟨ho, rfl⟩
  | tail _ hstep ih =>
    obtain ⟨ho', hk'⟩ := hstep.owned ih.1
    exact ⟨ho', hk'.trans ih.2⟩

end Descent.Tree
