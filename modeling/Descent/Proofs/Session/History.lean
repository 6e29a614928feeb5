import Descent.Proofs.Session.Reach

/-!
# The history of a tree

* `Tree.Settles`: a tree with all nodes of another, in which only nodes without a parent may have
  found one;
* `Grammar.Operation`: an insertion, a copy, or a request to a session.

A node that is appended becomes the parent of its children, none of which had one; a copy leaves
every node as it is. So an operation writes nothing to a node of the tree but the parent of one
that has none, and then a node of its own (`Reaches.settles`). The same is true of any number of
operations, one after the other.
-/

namespace Descent

namespace Tree

variable {t t' t'' : Tree}

/-- All nodes of a tree are in another with the same kind, start and fields. The parent of a node
is the same, or it is new and the node had none. -/
structure Settles (t t' : Tree) : Prop where
  size_le : t.size ≤ t'.size
  node? : ∀ {id node}, t.node? id = some node → ∃ parent, t'.node? id = some { node with parent } ∧
    (parent = node.parent ∨
      node.parent = none ∧ ∃ p, parent = some p ∧ t.size ≤ p.index ∧ p.index < t'.size)

theorem Settles.refl (t : Tree) : t.Settles t :=
  ⟨Nat.le_refl _, fun hn => ⟨_, hn, .inl rfl⟩⟩

theorem Settles.trans (h : t.Settles t') (h' : t'.Settles t'') : t.Settles t'' := by
  refine ⟨Nat.le_trans h.size_le h'.size_le, fun hn => ?_⟩
  obtain ⟨parent, hn', hparent⟩ := h.node? hn
  obtain ⟨parent', hn'', hparent'⟩ := h'.node? hn'
  refine ⟨parent', hn'', ?_⟩
  have hsize := h.size_le
  have hsize' := h'.size_le
  rcases hparent with rfl | ⟨hnone, p, rfl, hnew, hlt⟩
  · -- The node was as before when the second stretch began.
    refine hparent'.imp_right fun ⟨hnone, p, hp, hnew, hlt⟩ => ?_
    exact ⟨hnone, p, hp, Nat.le_trans hsize hnew, hlt⟩
  · -- The node had found a parent, which the second stretch leaves to it.
    rcases hparent' with rfl | ⟨hsome, -⟩
    · exact .inr ⟨hnone, p, rfl, hnew, Nat.lt_of_lt_of_le hlt hsize'⟩
    · cases hsome

theorem Settles.parsedAt {kind : String} {id : NodeId} {start : Nat} (h : t.Settles t')
    (hp : t.ParsedAt kind id start) : t'.ParsedAt kind id start :=
  hp.of_node? fun hn => (h.node? hn).imp fun _ hn' => hn'.1

theorem Extends.settles (h : t.Extends t') : t.Settles t' :=
  ⟨h.size_le, fun hn => ⟨_, h.node? hn, .inl rfl⟩⟩

/-- A new node is the parent of its children and of no other node. -/
theorem settles_append {kind : String} {start : Option Nat} {fields : Fields}
    (hf : t.Free fields.children) : t.Settles (t.append kind start fields).2 := by
  have hsize : t.size < (t.append kind start fields).2.size := by
    rw [size_append]
    exact Nat.lt_succ_self _
  refine ⟨Nat.le_of_lt hsize, fun {id node} hn => ?_⟩
  rw [node?_append_old hn]
  split
  next hchild =>
    obtain ⟨child, hn', hnone⟩ := hf.present id hchild
    obtain rfl : child = node := Option.some.inj (hn'.symm.trans hn)
    exact ⟨_, rfl, .inr ⟨hnone, _, rfl, Nat.le_refl _, hsize⟩⟩
  next => exact ⟨_, rfl, .inl rfl⟩

theorem Step.settles (h : Step t t') (ho : t.Owned) : t.Settles t' := by
  cases h with
  | append _ _ _ _ hf => exact settles_append hf
  | copy _ hid => exact (ho.copyBelow_sprouts hid).grows.settles

theorem Steps.settles (h : Steps t t') (ho : t.Owned) : t.Settles t' := by
  induction h with
  | refl => exact .refl t
  | tail hsteps hstep ih =>
    obtain ⟨ho', -⟩ := Steps.owned hsteps ho
    exact ih.trans (hstep.settles ho')

end Tree

namespace Grammar

/-- What can be done to a tree, whether it succeeds or not. A request is put to a session at any
cursor, with any number of parses in progress. -/
inductive Operation (g : Grammar) : Tree → Tree → Prop
  | insert {t} (kind : String) (fields : Fields) : Operation g t (t.insert kind fields).2
  | copy {t} (id : NodeId) : Operation g t (t.copy id).2
  | request (s : Session) (r : Request) : Operation g s.tree (s.handle g r).2.tree

variable {g : Grammar} {t t' : Tree}

theorem Reaches.operation (h : g.Reaches t) (ho : g.Operation t t') : g.Reaches t' := by
  cases ho with
  | insert kind fields => exact .insert kind fields h
  | copy id => exact .copy id h
  | request s r => exact .request s r h

theorem Reaches.settles (h : g.Reaches t) (ho : g.Operation t t') : t.Settles t' := by
  obtain ⟨howned, hkinds⟩ := h.owned
  cases ho with
  | insert kind fields => exact Tree.insert_steps.settles howned
  | copy id => exact Tree.copy_steps.settles howned
  | request s r => exact (s.grows_handle g r howned hkinds).settles howned

theorem Reaches.settles_history (h : g.Reaches t)
    (hh : Relation.ReflTransGen g.Operation t t') : g.Reaches t' ∧ t.Settles t' := by
  induction hh with
  | refl => exact ⟨h, .refl t⟩
  | tail _ ho ih => exact ⟨ih.1.operation ho, ih.2.trans (ih.1.settles ho)⟩

/-- **Nodes are written once.** Whatever is done to a tree, and whether it succeeds or not, the tree
has no fewer nodes afterwards, and every node has its kind, start and fields. The parent of a node
is the same as before, unless it had none: then it may be a node that has been added since. -/
theorem Reaches.written_once (h : g.Reaches t) (hh : Relation.ReflTransGen g.Operation t t') :
    t.size ≤ t'.size ∧ ∀ id node, t.node? id = some node → ∃ node', t'.node? id = some node' ∧
      node'.kind = node.kind ∧ node'.start = node.start ∧ node'.fields = node.fields ∧
      (node'.parent = node.parent ∨
        node.parent = none ∧ ∃ p, node'.parent = some p ∧ t.size ≤ p.index ∧
          p.index < t'.size) := by
  obtain ⟨-, hs⟩ := h.settles_history hh
  refine ⟨hs.size_le, fun id node hn => ?_⟩
  obtain ⟨parent, hn', hparent⟩ := hs.node? hn
  exact ⟨_, hn', rfl, rfl, rfl, hparent⟩

/-- A name that is parsed in front of a call that is not closed finds a parent in a binding that is
made by hand, and a second binding of it is refused. -/
theorem Reaches.written_once_name :
    let s := ((Session.ofText "f(" Script.grammar).handle Script.grammar
      (.parse "Expression" none)).2
    let fields := Fields.ofList [("name", .node ⟨0⟩)]
    let t' := ((s.tree.insert "Let" fields).2.insert "Let" fields).2
    s.tree.size = 2 ∧ t'.size = 3 ∧ (t'.node? ⟨0⟩).bind (·.parent) = some ⟨2⟩ ∧
    ∃ node node', s.tree.node? ⟨0⟩ = some node ∧ t'.node? ⟨0⟩ = some node' ∧
      node'.kind = node.kind ∧ node'.start = node.start ∧ node'.fields = node.fields ∧
      (node'.parent = node.parent ∨
        node.parent = none ∧ ∃ p, node'.parent = some p ∧ s.tree.size ≤ p.index ∧
          p.index < t'.size) := by
  intro s fields t'
  have hs : Script.grammar.Reaches s.tree := .request _ _ .empty
  have hh : Relation.ReflTransGen Script.grammar.Operation s.tree t' :=
    .tail (.single (.insert _ _)) (.insert _ _)
  have hsize : s.tree.size = 2 := by decide +kernel
  obtain ⟨node, hnode⟩ : ∃ node, s.tree.node? ⟨0⟩ = some node :=
    Tree.exists_node? (by rw [hsize]; decide)
  obtain ⟨node', hnode', hrest⟩ := (Reaches.written_once hs hh).2 ⟨0⟩ node hnode
  exact ⟨hsize, by decide +kernel, by decide +kernel, node, node', hnode, hnode', hrest⟩

end Grammar
end Descent
