import Descent.Proofs.Session.Growth
import Descent.Proofs.Tree.Walk
import Descent.Script.Binding

/-!
# The trees that a grammar comes to

Insertions, copies and requests to sessions, in any order and whether they succeed or not, lead to
trees that keep the ownership invariant. So every walk from a node ends, and none comes to a number
that no node has.
-/

namespace Descent.Grammar

/-- The trees that come about from the empty one. A request is put to a session at any cursor, with
any number of parses in progress. -/
inductive Reaches (g : Grammar) : Tree → Prop
  | empty : Reaches g (.empty g.kinds)
  | insert {t} (kind : String) (fields : Fields) : Reaches g t → Reaches g (t.insert kind fields).2
  | copy {t} (id : NodeId) : Reaches g t → Reaches g (t.copy id).2
  | request (s : Session) (r : Request) : Reaches g s.tree → Reaches g (s.handle g r).2.tree

variable {g : Grammar} {t : Tree}

theorem Reaches.owned (h : g.Reaches t) : t.Owned ∧ t.kinds = g.kinds := by
  induction h with
  | empty => exact ⟨Tree.owned_empty _, rfl⟩
  | insert kind fields _ ih =>
    obtain ⟨ho, hk⟩ := Tree.insert_steps.owned ih.1
    exact ⟨ho, hk.trans ih.2⟩
  | copy id _ ih =>
    obtain ⟨ho, hk⟩ := Tree.copy_steps.owned ih.1
    exact ⟨ho, hk.trans ih.2⟩
  | request s r _ ih =>
    obtain ⟨ho, hk⟩ := (s.grows_handle g r ih.1 ih.2).owned ih.1
    exact ⟨ho, hk.trans ih.2⟩

/-- **Ownership in every tree.** Fields lead to smaller numbers and parent links to larger ones,
the two are converse, no node is referred to twice, names in a node are different and kinds are
those of the grammar; and every walk from a node ends inside the tree. -/
theorem Reaches.ownership (h : g.Reaches t) :
    (∀ p c, t.Refers p c → c.index < p.index) ∧
    (∀ c node p, t.node? c = some node → (node.parent = some p ↔ t.Refers p c)) ∧
    t.references.Nodup ∧
    ∀ id node, t.node? id = some node →
      (node.fields.entries.map (·.1)).Nodup ∧ node.kind ∈ g.kinds ∧
      (∀ name c, node.fields.node? name = some c → (t.node? c).isSome) ∧
      (∀ name, ∀ c ∈ node.fields.list name, (t.node? c).isSome) ∧
      (∀ p, node.parent = some p → id.index < p.index ∧ (t.node? p).isSome) ∧
      (∀ kind, t.ClimbsTo kind id (t.above? id kind)) ∧
      t.Expands id (t.json id) ∧
      Tree.Copies t id (Tree.copyBelow id t).1 (Tree.copyBelow id t).2 := by
  obtain ⟨ho, hk⟩ := h.owned
  refine ⟨fun _ _ => ho.below, fun _ _ _ => ho.parent_iff, ho.nodup, fun id node hn => ?_⟩
  have hid := Tree.index_lt_of_node? hn
  have hchild : ∀ c ∈ node.fields.children, (t.node? c).isSome := by
    intro c hc
    obtain ⟨child, hchild⟩ := Tree.exists_node? (Nat.lt_trans (ho.child_index_lt hn hc) hid)
    rw [hchild]
    rfl
  refine ⟨node.fields.nodup, hk ▸ ho.kind_mem hn,
    fun name c hc => hchild c (Fields.node?_mem_children hc),
    fun name c hc => hchild c (Fields.list_subset_children hc), fun p hp => ?_,
    ho.climbsTo_above? hid, ho.expands_json hid, ho.copies_copyBelow hid⟩
  obtain ⟨hlt, hsize⟩ := ho.index_lt_parent hn hp
  obtain ⟨parent, hparent⟩ := Tree.exists_node? hsize
  exact ⟨hlt, by rw [hparent]; rfl⟩

/-- The tree of a script, after a failed insertion of a node that has a parent and a copy of the
whole script. -/
theorem Reaches.ownership_script :
    let s := Session.ofText "let a = f(b, 1);" Script.grammar
    let t := (s.handle Script.grammar (.parse "Script" none)).2.tree
    let t' := ((t.insert "Let" (.ofList [("name", .node ⟨0⟩)])).2.copy ⟨10⟩).2
    t'.size = 21 ∧ Script.grammar.Reaches t' ∧ t'.references.Nodup ∧
      t'.Expands ⟨20⟩ (t'.json ⟨20⟩) := by
  intro s t t'
  have ht : Script.grammar.Reaches t' := .copy _ (.insert _ _ (.request s _ .empty))
  have hsize : t'.size = 21 := by decide +kernel
  obtain ⟨node, hnode⟩ : ∃ node, t'.node? ⟨20⟩ = some node :=
    Tree.exists_node? (by rw [hsize]; decide)
  obtain ⟨-, -, hnodup, hnodes⟩ := Reaches.ownership ht
  exact ⟨hsize, ht, hnodup, (hnodes ⟨20⟩ node hnode).2.2.2.2.2.2.1⟩

end Descent.Grammar
