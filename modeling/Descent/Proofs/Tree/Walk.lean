import Descent.Proofs.Lookup
import Descent.Proofs.Tree.Ownership

/-!
# Walks through a tree

* `Tree.Expands`: a node and all below it as JSON;
* `Tree.Copies`: a copy of a node and all below it, children first;
* `Tree.ClimbsTo`: the nearest node of a kind above a node.

These are the walks without the guards of their functions: a rule can only be used at a node of the
tree, and a walk that does not end has no derivation. In a tree that keeps the ownership invariant
every walk from a node of the tree has one, and it gives what the guarded function gives.
-/

namespace Descent

theorem Fields.mem_children_of_get? {fields : Fields} {name : String} {value : Field}
    (h : fields.get? name = some value) {id : NodeId} (hid : id ∈ value.children) :
    id ∈ fields.children :=
  List.mem_flatMap.2 ⟨_, mem_of_lookup h, hid⟩

theorem Fields.node?_mem_children {fields : Fields} {name : String} {id : NodeId}
    (h : fields.node? name = some id) : id ∈ fields.children := by
  unfold node? at h
  split at h
  next hget =>
    cases h
    exact mem_children_of_get? hget (List.mem_singleton_self _)
  next => cases h

theorem Fields.list_subset_children {fields : Fields} {name : String} {id : NodeId}
    (h : id ∈ fields.list name) : id ∈ fields.children := by
  unfold list at h
  split at h
  next hget => exact mem_children_of_get? hget h
  next => cases h

namespace Tree

mutual

/-- A node as the JSON object of its fields. -/
inductive Expands (t : Tree) : NodeId → Json → Prop
  | node {id node members} : t.node? id = some node →
      ExpandsEntries t node.fields.entries members → Expands t id (.ofMembers members)

/-- Entries as the members of a JSON object. -/
inductive ExpandsEntries (t : Tree) : List (String × Field) → List (String × Json) → Prop
  | nil : ExpandsEntries t [] []
  | scalar {name value rest members} : ExpandsEntries t rest members →
      ExpandsEntries t ((name, .scalar value) :: rest) ((name, value) :: members)
  | node {name id json rest members} : Expands t id json → ExpandsEntries t rest members →
      ExpandsEntries t ((name, .node id) :: rest) ((name, json) :: members)
  | list {name ids jsons rest members} : ExpandsAll t ids jsons → ExpandsEntries t rest members →
      ExpandsEntries t ((name, .list ids) :: rest) ((name, .array jsons) :: members)

/-- Nodes as the elements of a JSON array. -/
inductive ExpandsAll (t : Tree) : List NodeId → List Json → Prop
  | nil : ExpandsAll t [] []
  | cons {id json ids jsons} : Expands t id json → ExpandsAll t ids jsons →
      ExpandsAll t (id :: ids) (json :: jsons)

end

mutual

/-- A node copied from a tree: its copy and the tree after it. Every child of the copy is there
when the copy is appended. -/
inductive Copies : Tree → NodeId → NodeId → Tree → Prop
  | node {t t' : Tree} {id node} {fields : Fields} : t.node? id = some node →
      CopiesEntries t node.fields.entries fields.entries t' →
      (∀ c ∈ fields.children, c.index < t'.size) →
      Copies t id ⟨t'.size⟩ (t'.append node.kind node.start fields).2

/-- Entries with all their nodes copied. -/
inductive CopiesEntries :
    Tree → List (String × Field) → List (String × Field) → Tree → Prop
  | nil {t} : CopiesEntries t [] [] t
  | scalar {t t' name json rest rest'} : CopiesEntries t rest rest' t' →
      CopiesEntries t ((name, .scalar json) :: rest) ((name, .scalar json) :: rest') t'
  | node {t t' t'' name id id' rest rest'} : Copies t id id' t' →
      CopiesEntries t' rest rest' t'' →
      CopiesEntries t ((name, .node id) :: rest) ((name, .node id') :: rest') t''
  | list {t t' t'' name ids ids' rest rest'} : CopiesAll t ids ids' t' →
      CopiesEntries t' rest rest' t'' →
      CopiesEntries t ((name, .list ids) :: rest) ((name, .list ids') :: rest') t''

/-- Nodes copied one after the other. -/
inductive CopiesAll : Tree → List NodeId → List NodeId → Tree → Prop
  | nil {t} : CopiesAll t [] [] t
  | cons {t t' t'' id id' ids ids'} : Copies t id id' t' → CopiesAll t' ids ids' t'' →
      CopiesAll t (id :: ids) (id' :: ids') t''

end

/-- The nearest node of a kind on the way up from a node. -/
inductive ClimbsTo (t : Tree) (kind : String) : NodeId → Option NodeId → Prop
  | top {id node} : t.node? id = some node → node.parent = none → ClimbsTo t kind id none
  | found {id node parent above} : t.node? id = some node → node.parent = some parent →
      t.node? parent = some above → above.kind = kind → ClimbsTo t kind id (some parent)
  | up {id node parent above result} : t.node? id = some node → node.parent = some parent →
      t.node? parent = some above → above.kind ≠ kind → ClimbsTo t kind parent result →
      ClimbsTo t kind id result

variable {t : Tree} {id : NodeId} {node : Node}

namespace Owned

theorem index_lt_parent (h : t.Owned) (hn : t.node? id = some node) {p : NodeId}
    (hp : node.parent = some p) : id.index < p.index ∧ p.index < t.size := by
  have hr := (h.parent_iff hn).1 hp
  exact ⟨h.below hr, hr.index_lt⟩

theorem child_index_lt (h : t.Owned) (hn : t.node? id = some node) {c : NodeId}
    (hc : c ∈ node.fields.children) : c.index < id.index :=
  h.below ⟨node, hn, hc⟩

end Owned

/-! ## JSON -/

/-- A field of a node as JSON. -/
def fieldJson (t : Tree) : Field → Json
  | .scalar value => value
  | .node id => t.json id
  | .list ids => .array (ids.map t.json)

theorem Owned.json_eq (h : t.Owned) (hn : t.node? id = some node) :
    t.json id = .ofMembers (node.fields.entries.map fun entry =>
      (entry.1, t.fieldJson entry.2)) := by
  rw [json]
  simp only [hn]
  congr 1
  apply List.map_congr_left
  rintro ⟨name, value⟩ he
  have hchild : ∀ c ∈ value.children, c.index < id.index :=
    fun c hc => h.child_index_lt hn (List.mem_flatMap.2 ⟨_, he, hc⟩)
  cases value with
  | scalar json => rfl
  | node c => simp [fieldJson, hchild c (List.mem_singleton_self _)]
  | list cs =>
    simp only [fieldJson, Prod.mk.injEq, true_and, Json.array.injEq]
    apply List.map_congr_left
    intro c hc
    rw [if_pos (hchild c hc)]

private theorem expandsAll_json {ids : List NodeId} (h : ∀ c ∈ ids, t.Expands c (t.json c)) :
    t.ExpandsAll ids (ids.map t.json) := by
  induction ids with
  | nil => exact .nil
  | cons c ids ih =>
    exact .cons (h c (List.mem_cons_self ..)) (ih fun c hc => h c (List.mem_cons_of_mem _ hc))

private theorem expandsEntries_json {entries : List (String × Field)}
    (h : ∀ c ∈ entries.flatMap (·.2.children), t.Expands c (t.json c)) :
    t.ExpandsEntries entries (entries.map fun entry => (entry.1, t.fieldJson entry.2)) := by
  induction entries with
  | nil => exact .nil
  | cons entry rest ih =>
    obtain ⟨name, value⟩ := entry
    simp only [List.flatMap_cons, List.mem_append] at h
    have hrest := ih fun c hc => h c (.inr hc)
    cases value with
    | scalar json => exact .scalar hrest
    | node c => exact .node (h c (.inl (List.mem_singleton_self _))) hrest
    | list cs => exact .list (expandsAll_json fun c hc => h c (.inl hc)) hrest

theorem Owned.expands_json (h : t.Owned) (hid : id.index < t.size) :
    t.Expands id (t.json id) := by
  obtain ⟨n, hn⟩ : ∃ n, id.index = n := ⟨_, rfl⟩
  induction n using Nat.strongRecOn generalizing id with
  | ind n ih =>
    obtain ⟨node, hnode⟩ := exists_node? hid
    rw [h.json_eq hnode]
    refine .node hnode (expandsEntries_json fun c hc => ?_)
    have hlt : c.index < id.index := h.child_index_lt hnode hc
    exact ih c.index (hn ▸ hlt) (Nat.lt_trans hlt hid) rfl

/-! ## Copies -/

section
variable {replace : NodeId → Tree → NodeId × Tree}

/-- Replacing a node copies it, in every tree that has the nodes of `t`. -/
private def CopiesBy (replace : NodeId → Tree → NodeId × Tree) (t : Tree) (id : NodeId) : Prop :=
  Replaces replace t id ∧
    ∀ t', t.Extends t' → t'.Owned → Copies t' id (replace id t').1 (replace id t').2

private theorem CopiesBy.mono {t' : Tree} (h : CopiesBy replace t id) (he : t.Extends t') :
    CopiesBy replace t' id :=
  ⟨h.1.mono he, fun t'' he' => h.2 t'' (he.trans he')⟩

private theorem CopiesBy.all {ids : List NodeId} (h : ∀ id ∈ ids, CopiesBy replace t id)
    (ho : t.Owned) :
    CopiesAll t ids (NodeId.replaceAll replace ids t).1 (NodeId.replaceAll replace ids t).2 := by
  induction ids generalizing t with
  | nil => exact .nil
  | cons id ids ih =>
    obtain ⟨hr, hc⟩ := h id (List.mem_cons_self ..)
    have hs := hr t (.refl t) ho
    exact .cons (hc t (.refl t) ho)
      (ih (fun a ha => (h a (List.mem_cons_of_mem _ ha)).mono hs.grows) hs.owned)

private theorem CopiesBy.entries {entries : List (String × Field)}
    (h : ∀ id ∈ entries.flatMap (·.2.children), CopiesBy replace t id) (ho : t.Owned) :
    CopiesEntries t entries (Fields.replaceEntries replace entries t).1
      (Fields.replaceEntries replace entries t).2 := by
  induction entries generalizing t with
  | nil => exact .nil
  | cons entry rest ih =>
    obtain ⟨name, value⟩ := entry
    simp only [List.flatMap_cons, List.mem_append] at h
    have hs : t.Sprouts (value.replace replace t).1.children (value.replace replace t).2 :=
      Replaces.field (fun id hid => (h id (.inl hid)).1) ho
    have hrest := ih (t := (value.replace replace t).2)
      (fun id hid => (h id (.inr hid)).mono hs.grows) hs.owned
    cases value with
    | scalar json => exact .scalar hrest
    | node id => exact .node ((h id (.inl (List.mem_singleton_self _))).2 t (.refl t) ho) hrest
    | list ids => exact .list (CopiesBy.all (fun id hid => h id (.inl hid)) ho) hrest

end

theorem Owned.copies_copyBelow (h : t.Owned) (hid : id.index < t.size) :
    Copies t id (copyBelow id t).1 (copyBelow id t).2 := by
  obtain ⟨n, hn⟩ : ∃ n, id.index = n := ⟨_, rfl⟩
  induction n using Nat.strongRecOn generalizing t id with
  | ind n ih =>
    obtain ⟨node, hnode⟩ := exists_node? hid
    have hchild : ∀ c ∈ node.fields.children,
        CopiesBy (fun child t => if child.index < id.index then copyBelow child t else (child, t))
          t c := by
      intro c hc
      have hlt : c.index < id.index := h.child_index_lt hnode hc
      have hsize {t' : Tree} (he : t.Extends t') : c.index < t'.size :=
        Nat.lt_of_lt_of_le (Nat.lt_trans hlt hid) he.size_le
      simp only [CopiesBy, Replaces, hlt, if_true]
      exact ⟨fun t' he ho => ho.copyBelow_sprouts (hsize he),
        fun t' he ho => ih c.index (hn ▸ hlt) ho (hsize he) rfl⟩
    have hs := Replaces.entries (fun c hc => (hchild c hc).1) h
    rw [copyBelow]
    simp only [hnode]
    exact .node hnode (CopiesBy.entries hchild h) fun c hc => hs.fresh.free.index_lt hc

/-! ## Ancestors -/

theorem Owned.climbsTo_above? (h : t.Owned) (hid : id.index < t.size) (kind : String) :
    t.ClimbsTo kind id (t.above? id kind) := by
  obtain ⟨n, hn⟩ : ∃ n, t.size - id.index = n := ⟨_, rfl⟩
  induction n using Nat.strongRecOn generalizing id with
  | ind n ih =>
    obtain ⟨node, hnode⟩ := exists_node? hid
    rw [above?]
    simp only [hnode, Option.bind_some]
    cases hp : node.parent with
    | none => exact .top hnode hp
    | some parent =>
      obtain ⟨hlt, hsize⟩ := h.index_lt_parent hnode hp
      obtain ⟨above, habove⟩ := exists_node? hsize
      simp only [habove, Option.any_some, beq_iff_eq]
      by_cases hk : above.kind = kind
      · rw [if_pos hk]
        exact .found hnode hp habove hk
      · rw [if_neg hk, if_pos ⟨hlt, hsize⟩]
        exact .up hnode hp habove hk (ih _ (by omega) hsize rfl)

end Tree
end Descent
