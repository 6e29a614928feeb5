import Descent.Proofs.Tree.Containment
import Descent.Proofs.Tree.Renaming
import Descent.Proofs.Tree.Walk
import Mathlib.Data.Set.Function

/-!
# Deep copies

* `Tree.Copied`: a node stands in another tree under a new number, with renamed fields;
* `Tree.Transcript`: copies of nodes, one after the other, on top of a tree;
* `Tree.Duplicates`: a copy of a node and all below it.

A copy is made child by child, so the nodes that it adds are those of a list in order: first what is
below the first child, then what is below the next, and at last the node itself. Where a node stands
in the list says where its copy stands in the tree (`NodeId.placed`). Children have nothing below
both, so no node is listed twice, and the lists of children are put together by `Transcript.append`.
-/

namespace Descent

/-- The place of the copy of a node if those of the nodes in a list are added to so many nodes. -/
def NodeId.placed (size : Nat) (l : List NodeId) (n : NodeId) : NodeId :=
  ⟨size + l.idxOf n⟩

namespace NodeId

variable {size : Nat} {l r : List NodeId} {m n : NodeId}

theorem placed_append_left (h : n ∈ l) : n.placed size (l ++ r) = n.placed size l := by
  rw [placed, placed, List.idxOf_append_of_mem h]

theorem placed_append_right (h : n ∉ l) :
    n.placed size (l ++ r) = n.placed (size + l.length) r := by
  rw [placed, placed, List.idxOf_append_of_notMem h, Nat.add_assoc]

theorem placed_inj (h : m ∈ l) : m.placed size l = n.placed size l ↔ m = n := by
  rw [placed, placed, mk.injEq, Nat.add_left_cancel_iff, List.idxOf_inj h]

end NodeId

namespace Tree

variable {t₀ t t' t'' : Tree} {id id' n : NodeId} {node : Node} {l l' roots roots' : List NodeId}
  {f f' : NodeId → NodeId}

/-! ## Nodes in another place -/

/-- A node of `t` stands in `t'` under the number that `f` gives, and so do its children in its
fields. -/
def Copied (f : NodeId → NodeId) (t t' : Tree) (n : NodeId) : Prop :=
  ∃ node parent, t.node? n = some node ∧
    t'.node? (f n) = some ⟨node.kind, node.start, node.fields.map f, parent⟩

theorem Copied.keeps (h : Copied f t t' n) (hk : t'.Keeps t'') : Copied f t t'' n := by
  obtain ⟨node, _, hnode, hcopy⟩ := h
  obtain ⟨parent, hkept⟩ := hk.node? hcopy
  exact ⟨node, parent, hnode, hkept⟩

theorem Copied.congr (h : Copied f t t' n) (hn : f n = f' n)
    (hc : ∀ c, t.Refers n c → f c = f' c) : Copied f' t t' n := by
  obtain ⟨node, parent, hnode, hcopy⟩ := h
  have hfields : node.fields.map f = node.fields.map f' :=
    Fields.map_congr fun c hmem => hc c ⟨node, hnode, hmem⟩
  rw [hn, hfields] at hcopy
  exact ⟨node, parent, hnode, hcopy⟩

/-- On top of `t` stand the copies of the nodes of `t₀` in `l`, which are `roots` and all below. -/
structure Transcript (t₀ t : Tree) (roots l : List NodeId) (t' : Tree) : Prop where
  nodup : l.Nodup
  mem_iff : ∀ {n}, n ∈ l ↔ ∃ c ∈ roots, t₀.Within c n
  size : t'.size = t.size + l.length
  copied : ∀ n ∈ l, Copied (.placed t.size l) t₀ t' n

namespace Transcript

theorem nil : Transcript t₀ t [] [] t where
  nodup := .nil
  mem_iff := by simp
  size := rfl
  copied := nofun

theorem root_mem (h : Transcript t₀ t roots l t') {c : NodeId} (hc : c ∈ roots) : c ∈ l :=
  h.mem_iff.2 ⟨c, hc, .refl t₀ c⟩

theorem child_mem (h : Transcript t₀ t roots l t') {c : NodeId} (hn : n ∈ l)
    (hc : t₀.Refers n c) : c ∈ l := by
  obtain ⟨root, hroot, hwithin⟩ := h.mem_iff.1 hn
  exact h.mem_iff.2 ⟨root, hroot, hwithin.child hc⟩

section
variable (h : Transcript t₀ t roots l t') (h' : Transcript t₀ t' roots' l' t'')
  (hapart : (roots ++ roots').Pairwise t₀.Apart)
include h h' hapart

theorem disjoint : l.Disjoint l' := by
  intro n hn hn'
  obtain ⟨c, hc, hcn⟩ := h.mem_iff.1 hn
  obtain ⟨d, hd, hdn⟩ := h'.mem_iff.1 hn'
  exact (List.pairwise_append.1 hapart).2.2 c hc d hd n hcn hdn

theorem placed_right (hn : n ∈ l') : n.placed t.size (l ++ l') = n.placed t'.size l' := by
  have hnot : n ∉ l := fun hl => disjoint h h' hapart hl hn
  rw [h.size, NodeId.placed_append_right hnot]

/-- Copies on top of copies. -/
theorem append (hk : t'.Keeps t'') : Transcript t₀ t (roots ++ roots') (l ++ l') t'' where
  nodup := List.nodup_append'.2 ⟨h.nodup, h'.nodup, disjoint h h' hapart⟩
  mem_iff := by
    intro n
    simp only [List.mem_append, h.mem_iff, h'.mem_iff, or_and_right, exists_or]
  size := by rw [h'.size, h.size, List.length_append, Nat.add_assoc]
  copied := by
    intro n hn
    rcases List.mem_append.1 hn with hn | hn
    · apply ((h.copied n hn).keeps hk).congr (NodeId.placed_append_left hn).symm
      intro c hc
      exact (NodeId.placed_append_left (h.child_mem hn hc)).symm
    · apply (h'.copied n hn).congr (placed_right h h' hapart hn).symm
      intro c hc
      exact (placed_right h h' hapart (h'.child_mem hn hc)).symm

end

/-- The copy of a node on top of those of all below it. -/
theorem above (ho : t₀.Owned) (hnode : t₀.node? id = some node)
    (h : Transcript t₀ t node.fields.children l t') :
    Transcript t₀ t [id] (l ++ [id])
      (t'.append node.kind node.start (node.fields.map (.placed t.size l))).2 ∧
    (⟨t'.size⟩ : NodeId) = id.placed t.size (l ++ [id]) := by
  have hid : id ∉ l := by
    intro hmem
    obtain ⟨c, hc, hwithin⟩ := h.mem_iff.1 hmem
    exact absurd (hwithin.index_le ho) (Nat.not_le_of_lt (ho.child_index_lt hnode hc))
  have hplace : (⟨t'.size⟩ : NodeId) = id.placed t.size (l ++ [id]) := by
    rw [h.size, NodeId.placed_append_right hid, NodeId.placed, List.idxOf_cons_self,
      Nat.add_zero]
  have hchild : ∀ c ∈ node.fields.children, c.placed t.size l = c.placed t.size (l ++ [id]) :=
    fun c hc => (NodeId.placed_append_left (h.root_mem hc)).symm
  refine ⟨⟨?_, ?_, ?_, ?_⟩, hplace⟩
  · exact List.nodup_append'.2 ⟨h.nodup, List.nodup_singleton id, by simpa using hid⟩
  · intro n
    have hrefers (c : NodeId) : t₀.Refers id c ↔ c ∈ node.fields.children := by
      simp [Refers, hnode]
    simp only [List.mem_append, h.mem_iff, List.mem_singleton, exists_eq_left, within_iff (a := id),
      hrefers]
    exact or_comm
  · rw [size_append, h.size, List.length_append]
    rfl
  · intro n hn
    rcases List.mem_append.1 hn with hn | hn
    · apply ((h.copied n hn).keeps keeps_append).congr (NodeId.placed_append_left hn).symm
      intro c hc
      exact (NodeId.placed_append_left (h.child_mem hn hc)).symm
    · obtain rfl := List.mem_singleton.1 hn
      refine ⟨node, none, hnode, ?_⟩
      rw [← hplace, node?_append_new, Fields.map_congr hchild]

end Transcript

/-! ## Copies as transcripts -/

mutual

theorem Copies.sprouts {t t' id id'} : t.Owned → Copies t id id' t' → t.Sprouts [id'] t'
  | ho, .node hnode hentries _ => (hentries.sprouts ho).node (ho.kind_mem hnode)

theorem CopiesEntries.sprouts {t t' entries entries'} : t.Owned →
    CopiesEntries t entries entries' t' → t.Sprouts (entries'.flatMap (·.2.children)) t'
  | ho, .nil => .nil ho
  | ho, .scalar hrest => by
    have hs := hrest.sprouts ho
    exact hs
  | ho, .node hid hrest => by
    have hs := hid.sprouts ho
    exact hs.append (hrest.sprouts hs.owned)
  | ho, .list hids hrest => by
    have hs := hids.sprouts ho
    exact hs.append (hrest.sprouts hs.owned)

theorem CopiesAll.sprouts {t t' ids ids'} : t.Owned → CopiesAll t ids ids' t' →
    t.Sprouts ids' t'
  | ho, .nil => .nil ho
  | ho, .cons hid hids => by
    have hs := hid.sprouts ho
    exact hs.append (hids.sprouts hs.owned)

end

theorem Copies.last (h : Copies t id id' t') : id'.index + 1 = t'.size := by
  cases h
  exact size_append.symm

/-- Nodes of a tree that are apart from one another, in a tree that has all nodes of this one. -/
structure Scattered (t₀ t : Tree) (roots : List NodeId) : Prop where
  grows : t₀.Extends t
  owned : t.Owned
  index_lt : ∀ c ∈ roots, c.index < t₀.size
  apart : roots.Pairwise t₀.Apart

theorem Scattered.left (h : Scattered t₀ t (roots ++ roots')) : Scattered t₀ t roots :=
  ⟨h.grows, h.owned, fun c hc => h.index_lt c (List.mem_append_left _ hc),
    (List.pairwise_append.1 h.apart).1⟩

theorem Scattered.right {ids : List NodeId} (h : Scattered t₀ t (roots ++ roots'))
    (hs : t.Sprouts ids t') : Scattered t₀ t' roots' :=
  ⟨h.grows.trans hs.grows, hs.owned, fun c hc => h.index_lt c (List.mem_append_right _ hc),
    (List.pairwise_append.1 h.apart).2.1⟩

/-- The transcripts of an entry and of those behind it. -/
private theorem Transcript.entry {value : Field} {rest : List (String × Field)} (name : String)
    (h : Transcript t₀ t value.children l t')
    (h' : Transcript t₀ t' (rest.flatMap (·.2.children)) l' t'')
    (hapart : (value.children ++ rest.flatMap (·.2.children)).Pairwise t₀.Apart)
    (hk : t'.Keeps t'') :
    Transcript t₀ t (((name, value) :: rest).flatMap (·.2.children)) (l ++ l') t'' ∧
      (name, value.map (.placed t.size l)) ::
          rest.map (fun entry => (entry.1, entry.2.map (.placed t'.size l'))) =
        ((name, value) :: rest).map fun entry =>
          (entry.1, entry.2.map (.placed t.size (l ++ l'))) := by
  refine ⟨h.append h' hapart hk, ?_⟩
  have hvalue : value.map (.placed t.size l) = value.map (.placed t.size (l ++ l')) :=
    Field.map_congr fun c hc => (NodeId.placed_append_left (h.root_mem hc)).symm
  rw [List.map_cons, hvalue]
  refine congrArg _ (List.map_congr_left fun entry he => ?_)
  refine congrArg _ (Field.map_congr fun c hc => ?_)
  have hroot : c ∈ rest.flatMap (·.2.children) := List.mem_flatMap.2 ⟨entry, he, hc⟩
  exact (h.placed_right h' hapart (h'.root_mem hroot)).symm

mutual

theorem Copies.transcript {t t' id id'} (ho : t₀.Owned) : Copies t id id' t' →
    Scattered t₀ t [id] → ∃ l, Transcript t₀ t [id] l t' ∧ id' = id.placed t.size l
  | @Copies.node _ _ _ node fields hnode hentries _, h => by
    have hnode₀ : t₀.node? id = some node :=
      h.grows.of_node? (h.index_lt id (List.mem_singleton_self _)) hnode
    have hchildren : Scattered t₀ t node.fields.children :=
      ⟨h.grows, h.owned, fun c hc => ho.child_lt_size ⟨node, hnode₀, hc⟩, ho.pairwise_apart hnode₀⟩
    obtain ⟨l, hl, hfields⟩ := hentries.transcript ho hchildren
    obtain rfl : fields = node.fields.map (.placed t.size l) := Fields.eq_of_entries_eq hfields
    exact ⟨l ++ [id], hl.above ho hnode₀⟩

theorem CopiesEntries.transcript {t t' entries entries'} (ho : t₀.Owned) :
    CopiesEntries t entries entries' t' → Scattered t₀ t (entries.flatMap (·.2.children)) →
    ∃ l, Transcript t₀ t (entries.flatMap (·.2.children)) l t' ∧
      entries' = entries.map fun entry => (entry.1, entry.2.map (.placed t.size l))
  | .nil, _ => ⟨[], .nil, rfl⟩
  | .scalar hrest, h => by
    obtain ⟨l, hl, rfl⟩ := hrest.transcript ho h
    exact ⟨l, hl, rfl⟩
  | @CopiesEntries.node _ t' _ name id id' rest _ hid hrest, h => by
    have hs := hid.sprouts h.owned
    have hboth : Scattered t₀ t ([id] ++ rest.flatMap (·.2.children)) := h
    obtain ⟨l, hl, rfl⟩ := hid.transcript ho hboth.left
    obtain ⟨l', hl', rfl⟩ := hrest.transcript ho (hboth.right hs)
    have hfirst : Transcript t₀ t (Field.node id).children l t' := hl
    exact ⟨l ++ l', hfirst.entry name hl' h.apart (hrest.sprouts hs.owned).grows.keeps⟩
  | @CopiesEntries.list _ t' _ name ids ids' rest _ hids hrest, h => by
    have hs := hids.sprouts h.owned
    have hboth : Scattered t₀ t (ids ++ rest.flatMap (·.2.children)) := h
    obtain ⟨l, hl, rfl⟩ := hids.transcript ho hboth.left
    obtain ⟨l', hl', rfl⟩ := hrest.transcript ho (hboth.right hs)
    have hfirst : Transcript t₀ t (Field.list ids).children l t' := hl
    exact ⟨l ++ l', hfirst.entry name hl' h.apart (hrest.sprouts hs.owned).grows.keeps⟩

theorem CopiesAll.transcript {t t' ids ids'} (ho : t₀.Owned) : CopiesAll t ids ids' t' →
    Scattered t₀ t ids → ∃ l, Transcript t₀ t ids l t' ∧ ids' = ids.map (.placed t.size l)
  | .nil, _ => ⟨[], .nil, rfl⟩
  | @CopiesAll.cons _ t' _ id id' ids _ hid hids, h => by
    have hs := hid.sprouts h.owned
    have hboth : Scattered t₀ t ([id] ++ ids) := h
    obtain ⟨l, hl, rfl⟩ := hid.transcript ho hboth.left
    obtain ⟨l', hl', rfl⟩ := hids.transcript ho (hboth.right hs)
    refine ⟨l ++ l', hl.append hl' h.apart (hids.sprouts hs.owned).grows.keeps, ?_⟩
    have hfirst : id ∈ l := hl.root_mem (List.mem_singleton_self _)
    rw [List.map_cons, NodeId.placed_append_left hfirst]
    refine congrArg _ (List.map_congr_left fun c hc => ?_)
    exact (hl.placed_right hl' h.apart (hl'.root_mem hc)).symm

end

/-! ## The copy of a node and all below it -/

theorem refers_of_copied (h : Copied f t t' n) {m : NodeId} :
    t'.Refers (f n) m ↔ ∃ c, t.Refers n c ∧ f c = m := by
  obtain ⟨node, parent, hnode, hcopy⟩ := h
  simp only [Refers, hnode, hcopy, Option.some.injEq, exists_eq_left', Fields.children_map,
    List.mem_map]

/-- A field of a node and of its copy as JSON. -/
private theorem fieldJson_map {value : Field}
    (h : ∀ c ∈ value.children, t'.json (f c) = t.json c) :
    t'.fieldJson (value.map f) = t.fieldJson value := by
  cases value with
  | scalar json => rfl
  | node id => exact h id (List.mem_singleton_self _)
  | list ids =>
    refine congrArg Json.array ?_
    rw [List.map_map]
    exact List.map_congr_left h

/-- `f` takes a node and all below it to their copies, which stand on top of the tree. -/
structure Duplicates (f : NodeId → NodeId) (t : Tree) (id : NodeId) (t' : Tree) : Prop where
  owned : t.Owned
  owned' : t'.Owned
  copied : ∀ n, t.Within id n → Copied f t t' n
  injOn : Set.InjOn f {n | t.Within id n}

namespace Duplicates

variable (h : Duplicates f t id t')
include h

theorem bijOn : Set.BijOn f {n | t.Within id n} {n | t'.Within (f id) n} := by
  refine ⟨?_, h.injOn, ?_⟩
  · intro n hn
    induction hn with
    | refl => exact .refl t' (f id)
    | tail hp hc ih => exact ih.child ((refers_of_copied (h.copied _ hp)).2 ⟨_, hc, rfl⟩)
  · intro m hm
    induction hm with
    | refl => exact ⟨id, .refl t id, rfl⟩
    | tail _ hc ih =>
      obtain ⟨p, hp, rfl⟩ := ih
      obtain ⟨c, hchild, rfl⟩ := (refers_of_copied (h.copied _ hp)).1 hc
      exact ⟨c, hp.child hchild, rfl⟩

/-- The copy of a child belongs to the copy of its parent. -/
theorem parent_eq {p c : NodeId} (hp : t.Within id p) (hc : t.Refers p c) :
    ∃ node, t'.node? (f c) = some node ∧ node.parent = some (f p) := by
  obtain ⟨_, _, -, hcopy⟩ := h.copied c (hp.child hc)
  have hrefers : t'.Refers (f p) (f c) := (refers_of_copied (h.copied p hp)).2 ⟨c, hc, rfl⟩
  exact ⟨_, hcopy, (h.owned'.parent_iff hcopy).2 hrefers⟩

theorem json_eq (hn : t.Within id n) : t'.json (f n) = t.json n := by
  apply hn.induct (P := fun n => t'.json (f n) = t.json n) h.owned
  intro n hn ih
  obtain ⟨node, _, hnode, hcopy⟩ := h.copied n hn
  rw [h.owned'.json_eq hcopy, h.owned.json_eq hnode]
  simp only [Fields.map, List.map_map]
  refine congrArg Json.ofMembers (List.map_congr_left fun entry he => ?_)
  refine congrArg (entry.1, ·) (fieldJson_map fun c hc => ?_)
  exact ih c ⟨node, hnode, List.mem_flatMap.2 ⟨entry, he, hc⟩⟩

end Duplicates

/-- A node of a tree that is copied, and the tree after it. -/
theorem Owned.exists_duplicates (h : t.Owned) (hid : id.index < t.size) :
    ∃ (f : NodeId → NodeId) (nodes : List NodeId), (copyBelow id t).1 = f id ∧
      Duplicates f t id (copyBelow id t).2 ∧ nodes.Nodup ∧ (∀ n, n ∈ nodes ↔ t.Within id n) ∧
      (copyBelow id t).2.size = t.size + nodes.length ∧ ∀ n, t.size ≤ (f n).index := by
  have hscattered : Scattered t t [id] :=
    ⟨.refl t, h, by simpa using hid, List.pairwise_singleton _ _⟩
  obtain ⟨nodes, hnodes, hcopy⟩ := (h.copies_copyBelow hid).transcript h hscattered
  have hmem (n : NodeId) : n ∈ nodes ↔ t.Within id n := by simp [hnodes.mem_iff]
  have hduplicates : Duplicates (.placed t.size nodes) t id (copyBelow id t).2 :=
    ⟨h, (h.copyBelow_sprouts hid).owned, fun n hn => hnodes.copied n ((hmem n).2 hn),
      fun n hn m _ => (NodeId.placed_inj ((hmem n).2 hn)).1⟩
  exact ⟨_, nodes, hcopy, hduplicates, hnodes.nodup, hmem, hnodes.size,
    fun n => Nat.le_add_right ..⟩

end Tree
end Descent
