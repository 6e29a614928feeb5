import Descent.Proofs.Tree.Ownership

/-!
# What is below a node

* `Tree.Within`: a node is another one or below it, which fields decide;
* `Tree.Apart`: two nodes with nothing below both.

In a tree that keeps the ownership invariant numbers get smaller on the way down, and there is one
way up. So of two nodes that have a node below both, one is below the other
(`Within.total`), and different children of a node are apart (`Owned.apart`).
-/

namespace Descent.Tree

variable {t : Tree} {a b c d n p q : NodeId}

/-- Fields lead from `a` to `n` in any number of steps. -/
def Within (t : Tree) (a n : NodeId) : Prop :=
  Relation.ReflTransGen t.Refers a n

/-- Nothing is below both nodes. -/
def Apart (t : Tree) (a b : NodeId) : Prop :=
  ∀ n, t.Within a n → ¬t.Within b n

theorem Within.refl (t : Tree) (a : NodeId) : t.Within a a :=
  Relation.ReflTransGen.refl

theorem Within.trans (h : t.Within a b) (h' : t.Within b c) : t.Within a c :=
  Relation.ReflTransGen.trans h h'

theorem Within.child (h : t.Within a p) (hc : t.Refers p c) : t.Within a c :=
  Relation.ReflTransGen.tail h hc

/-- A node itself, or below one of its children. -/
theorem within_iff : t.Within a n ↔ n = a ∨ ∃ c, t.Refers a c ∧ t.Within c n :=
  Relation.ReflTransGen.cases_head_iff.trans (or_congr_left eq_comm)

theorem Within.index_le (h : t.Owned) (hn : t.Within a n) : n.index ≤ a.index := by
  induction hn with
  | refl => exact Nat.le_refl _
  | tail _ hc ih => exact Nat.le_trans (Nat.le_of_lt (h.below hc)) ih

theorem Within.index_lt (h : t.Owned) (ha : a.index < t.size) (hn : t.Within a n) :
    n.index < t.size :=
  Nat.lt_of_le_of_lt (hn.index_le h) ha

/-- What holds of a node if it holds of its children holds of everything below a node. -/
theorem Within.induct (h : t.Owned) {P : NodeId → Prop}
    (step : ∀ n, t.Within a n → (∀ c, t.Refers n c → P c) → P n) (hn : t.Within a n) : P n := by
  obtain ⟨k, hk⟩ : ∃ k, n.index = k := ⟨_, rfl⟩
  induction k using Nat.strongRecOn generalizing n with
  | ind k ih => exact step n hn fun c hc => ih c.index (hk ▸ h.below hc) (hn.child hc) rfl

/-- A node is a child of one other node at most. -/
theorem Owned.parent_unique (h : t.Owned) (hp : t.Refers p c) (hq : t.Refers q c) : p = q := by
  obtain ⟨node, hnode⟩ := exists_node? (h.child_lt_size hp)
  have hparent := (h.parent_iff hnode).2 hp
  rw [(h.parent_iff hnode).2 hq] at hparent
  exact (Option.some.inj hparent).symm

/-- Of two nodes above a third, one is above the other. -/
theorem Within.total (h : t.Owned) (ha : t.Within a n) (hb : t.Within b n) :
    t.Within a b ∨ t.Within b a := by
  have hunique : Relator.RightUnique (Function.swap t.Refers) :=
    fun _ _ _ hp hq => h.parent_unique hp hq
  have htotal := Relation.ReflTransGen.total_of_right_unique hunique
    (Relation.reflTransGen_swap.2 ha) (Relation.reflTransGen_swap.2 hb)
  exact htotal.symm.imp Relation.reflTransGen_swap.1 Relation.reflTransGen_swap.1

/-- A child is not below another child of the same node. -/
private theorem eq_of_within (h : t.Owned) (hc : t.Refers p c) (hd : t.Refers p d)
    (hcd : t.Within c d) : c = d := by
  cases hcd with
  | refl => rfl
  | tail hq hd' =>
    obtain rfl := h.parent_unique hd' hd
    exact absurd (Within.index_le h hq) (Nat.not_le_of_lt (h.below hc))

theorem Owned.apart (h : t.Owned) (hc : t.Refers p c) (hd : t.Refers p d) (hne : c ≠ d) :
    t.Apart c d := by
  intro n hcn hdn
  rcases hcn.total h hdn with hcd | hdc
  · exact hne (eq_of_within h hc hd hcd)
  · exact hne (eq_of_within h hd hc hdc).symm

/-- The children of a node are apart from one another. -/
theorem Owned.pairwise_apart (h : t.Owned) {node : Node} (hn : t.node? p = some node) :
    node.fields.children.Pairwise t.Apart := by
  have hnodup : node.fields.children.Nodup := by
    apply (List.nodup_flatMap.1 h.nodup).1 node
    exact Array.mem_toList_iff.2 (Array.mem_of_getElem? hn)
  exact hnodup.pairwise_of_forall_ne fun c hc d hd hne => h.apart ⟨node, hn, hc⟩ ⟨node, hn, hd⟩ hne

end Descent.Tree
