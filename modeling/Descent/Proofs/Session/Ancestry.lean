import Descent.Proofs.Session.Reach
import Descent.Proofs.Session.Shape
import Descent.Proofs.Tree.Containment

/-!
# Ancestors

* `Tree.Inside`: fields lead from one node to another, in one step or more;
* `Tree.Nearest`: the innermost node of a kind that another one is inside of.

A climb follows parent links, and what a node is inside of is said by fields alone. In a tree that
keeps the ownership invariant a node is inside of its parent and of what that is inside of, and of
nothing else (`Owned.inside_iff`). So a climb passes everything that a node is inside of, from the
inside out, and ends with the nearest node of a kind, or with none if there is none.
-/

namespace Descent

namespace Tree

variable {t : Tree} {kind : String} {a b n p : NodeId} {node : Node} {result : Option NodeId}

/-- Fields lead from `a` to `n`, in one step or more. -/
def Inside (t : Tree) (a n : NodeId) : Prop :=
  Relation.TransGen t.Refers a n

/-- The node `n` is inside of `a`, which is of a kind, and of no other node of this kind that is
inside of `a`. -/
structure Nearest (t : Tree) (kind : String) (n a : NodeId) : Prop where
  hasKind : t.HasKind kind a
  inside : t.Inside a n
  innermost : ∀ b, t.Inside a b → t.Inside b n → ¬t.HasKind kind b

theorem within_iff_inside : t.Within a n ↔ n = a ∨ t.Inside a n :=
  Relation.reflTransGen_iff_eq_or_transGen

theorem Within.inside (h : t.Within a p) (hp : t.Refers p n) : t.Inside a n :=
  Relation.TransGen.tail' h hp

theorem Inside.index_lt (h : t.Owned) (hn : t.Inside a n) : n.index < a.index := by
  obtain ⟨p, hap, hp⟩ := Relation.TransGen.tail'_iff.1 hn
  exact Nat.lt_of_lt_of_le (h.below hp) (Within.index_le h hap)

/-- A node is inside of what its parent is, and of its parent. -/
theorem Owned.inside_iff (h : t.Owned) (hp : t.Refers p n) : t.Inside a n ↔ t.Within a p := by
  refine ⟨fun hn => ?_, fun ha => ha.inside hp⟩
  obtain ⟨q, haq, hq⟩ := Relation.TransGen.tail'_iff.1 hn
  exact h.parent_unique hp hq ▸ haq

theorem Owned.not_inside (h : t.Owned) (hn : t.node? n = some node) (hparent : node.parent = none) :
    ¬t.Inside a n := by
  intro hin
  obtain ⟨p, -, hp⟩ := Relation.TransGen.tail'_iff.1 hin
  cases hparent.symm.trans ((h.parent_iff hn).2 hp)

/-- Of two nodes that a third is inside of, one is inside of the other, if they are not one. -/
theorem Inside.total (h : t.Owned) (ha : t.Inside a n) (hb : t.Inside b n) :
    a = b ∨ t.Inside a b ∨ t.Inside b a := by
  rcases Within.total h (within_iff_inside.2 (.inr ha)) (within_iff_inside.2 (.inr hb)) with
    hab | hba
  · exact (within_iff_inside.1 hab).imp Eq.symm .inl
  · exact (within_iff_inside.1 hba).imp id .inr

theorem Nearest.unique (h : t.Owned) (ha : t.Nearest kind n a) (hb : t.Nearest kind n b) :
    a = b := by
  rcases ha.inside.total h hb.inside with rfl | hab | hba
  · rfl
  · exact absurd hb.hasKind (ha.innermost b hab hb.inside)
  · exact absurd ha.hasKind (hb.innermost a hba ha.inside)

/-- What a climb comes to: the nearest node of the kind, or none if there is none. -/
theorem ClimbsTo.nearest (hc : t.ClimbsTo kind n result) (h : t.Owned) :
    (∀ a, result = some a → t.Nearest kind n a) ∧
      (result = none → ∀ a, t.Inside a n → ¬t.HasKind kind a) := by
  induction hc with
  | top hn hparent => exact ⟨nofun, fun _ a ha => absurd ha (h.not_inside hn hparent)⟩
  | @found n node p above hn hparent habove hkind =>
    have hp : t.Refers p n := (h.parent_iff hn).1 hparent
    refine ⟨?_, nofun⟩
    rintro _ ⟨⟩
    refine ⟨⟨above, habove, hkind⟩, (Within.refl t p).inside hp, fun b hb hbn => ?_⟩
    have hle := Within.index_le h ((h.inside_iff hp).1 hbn)
    exact absurd (hb.index_lt h) (Nat.not_lt_of_le hle)
  | @up n node p above result hn hparent habove hkind _ ih =>
    have hp : t.Refers p n := (h.parent_iff hn).1 hparent
    have hother : ¬t.HasKind kind p := by
      rintro ⟨node', hnode', hkind'⟩
      cases habove.symm.trans hnode'
      exact hkind hkind'
    -- What the node is inside of and is of the kind, its parent is inside of.
    have houter {b} (hb : t.Inside b n) (hkindb : t.HasKind kind b) : t.Inside b p := by
      refine (within_iff_inside.1 ((h.inside_iff hp).1 hb)).resolve_left ?_
      rintro rfl
      exact hother hkindb
    refine ⟨fun a ha => ?_, fun hnone a ha hkinda => ih.2 hnone a (houter ha hkinda) hkinda⟩
    have hnearest := ih.1 a ha
    refine ⟨hnearest.hasKind, (within_iff_inside.2 (.inr hnearest.inside)).inside hp, ?_⟩
    exact fun b hab hb hkindb => hnearest.innermost b hab (houter hb hkindb) hkindb

end Tree

namespace Grammar

variable {g : Grammar} {t : Tree} {n : NodeId} {node : Node}

/-- **Ancestors are what a node is inside of.** Looking for an ancestor of a kind is a climb along
parent links that ends. It finds the innermost node of this kind that fields lead from, and it finds
none exactly if no node that fields lead from is of this kind. -/
theorem Reaches.above_nearest (h : g.Reaches t) (hn : t.node? n = some node) (kind : String) :
    t.ClimbsTo kind n (t.above? n kind) ∧
      (∀ a, t.above? n kind = some a ↔ t.Nearest kind n a) ∧
      (t.above? n kind = none ↔ ∀ a, t.Inside a n → ¬t.HasKind kind a) := by
  obtain ⟨howned, -⟩ := h.owned
  have hclimbs := howned.climbsTo_above? (Tree.index_lt_of_node? hn) kind
  obtain ⟨hsome, hnone⟩ := hclimbs.nearest howned
  refine ⟨hclimbs, fun a => ⟨hsome a, fun ha => ?_⟩, hnone, fun hno => ?_⟩
  · cases hfound : t.above? n kind with
    | none => exact absurd ha.hasKind (hnone hfound a ha.inside)
    | some b => rw [(hsome b hfound).unique howned ha]
  · cases hfound : t.above? n kind with
    | none => rfl
    | some b => exact absurd (hsome b hfound).hasKind (hno b (hsome b hfound).inside)

/-- The name in a call in a call, of which there is a copy outside of the script: the inner call is
the nearest one, and the name is inside of no binding. -/
theorem Reaches.above_nearest_copy :
    let s := Session.ofText "let a = f(g(b));" Script.grammar
    let t := ((s.handle Script.grammar (.parse "Script" none)).2.tree.copy ⟨9⟩).2
    Script.grammar.Reaches t ∧ t.size = 20 ∧ t.ClimbsTo "Call" ⟨15⟩ (some ⟨17⟩) ∧
      t.Nearest "Call" ⟨15⟩ ⟨17⟩ ∧ t.HasKind "Call" ⟨19⟩ ∧
      ∀ a, t.Inside a ⟨15⟩ → ¬t.HasKind "Let" a := by
  intro s t
  have ht : Script.grammar.Reaches t := .copy _ (.request s _ .empty)
  have hsize : t.size = 20 := by decide +kernel
  have hcall : t.above? ⟨15⟩ "Call" = some ⟨17⟩ := by decide +kernel
  have hlet : t.above? ⟨15⟩ "Let" = none := by decide +kernel
  have houter : (t.node? ⟨19⟩).map (·.kind) = some "Call" := by decide +kernel
  obtain ⟨node, hnode⟩ : ∃ node, t.node? ⟨15⟩ = some node :=
    Tree.exists_node? (by rw [hsize]; decide)
  obtain ⟨hclimbs, hnearest, -⟩ := Reaches.above_nearest ht hnode "Call"
  exact ⟨ht, hsize, hcall ▸ hclimbs, (hnearest _).1 hcall, Option.map_eq_some_iff.1 houter,
    (Reaches.above_nearest ht hnode "Let").2.2.1 hlet⟩

end Grammar
end Descent
