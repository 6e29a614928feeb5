import Descent.Proofs.Session.Reach

/-!
# Insertions

* `Tree.RefusesChild`: why a node cannot become a child behind others.

The children of a node that is inserted are looked at in their order before anything is written. So
a refusal is about the first of them that cannot become one and leaves the tree as it was
(`insert_of_fault`, `exists_refusesChild`). What is not refused adds a node and writes the parents
of its children (`insert_of_free`).
-/

namespace Descent

namespace Tree

variable {t t' : Tree} {kind : String} {fields : Fields} {e : Failure} {id : NodeId}
  {before before' seen ids : List NodeId}

/-- A node cannot become a child behind others: it is not in the tree, or it has a parent or is one
of them. -/
inductive RefusesChild (t : Tree) (before : List NodeId) (id : NodeId) : Failure → Prop
  | foreign : t.node? id = none →
    RefusesChild t before id (.badArgument s!"node #{id.index} does not belong to this tree")
  | taken {node : Node} : t.node? id = some node → node.parent ≠ none ∨ id ∈ before →
    RefusesChild t before id (.badState s!"{node.kind} node #{id.index} already has a parent")

theorem RefusesChild.congr (h : t.RefusesChild before id e) (hmem : id ∈ before ↔ id ∈ before') :
    t.RefusesChild before' id e := by
  cases h with
  | foreign hnone => exact .foreign hnone
  | taken hnode htaken => exact .taken hnode (htaken.imp_right hmem.1)

/-- The fault of some nodes is that of the first which has one. -/
private theorem exists_refusesChild_seen (h : t.childFault? seen ids = some e) :
    ∃ before id after, ids = before ++ id :: after ∧ t.childFault? seen before = none ∧
      t.RefusesChild (before.reverse ++ seen) id e := by
  induction ids generalizing seen with
  | nil => cases h
  | cons id ids ih =>
    unfold childFault? at h
    split at h
    next hnone =>
      cases h
      exact ⟨[], id, ids, rfl, rfl, .foreign hnone⟩
    next node hnode =>
      split at h
      next htaken =>
        cases h
        refine ⟨[], id, ids, rfl, rfl, .taken hnode ?_⟩
        rwa [Bool.or_eq_true, Option.isSome_iff_ne_none, List.contains_iff_mem] at htaken
      next hfine =>
        obtain ⟨before, c, after, rfl, hbefore, hrefuses⟩ := ih h
        refine ⟨id :: before, c, after, rfl, ?_, ?_⟩
        · rw [childFault?, hnode]
          simp only [if_neg hfine, hbefore]
        · rwa [List.reverse_cons, List.append_assoc]

/-- A fault is about the first node that cannot become a child behind those before it. -/
theorem exists_refusesChild (h : t.childFault? [] ids = some e) :
    ∃ before id after,
      ids = before ++ id :: after ∧ t.Free before ∧ t.RefusesChild before id e := by
  obtain ⟨before, id, after, hids, hbefore, hrefuses⟩ := exists_refusesChild_seen h
  refine ⟨before, id, after, hids, childFault?_eq_none_iff.1 hbefore, hrefuses.congr ?_⟩
  rw [List.append_nil, List.mem_reverse]

/-! ## What an insertion comes to -/

theorem insert_of_not_mem (hk : kind ∉ t.kinds) :
    t.insert kind fields = (.error (unknownKind kind), t) := by
  rw [insert, if_neg (by rwa [List.contains_iff_mem])]

theorem insert_of_fault (hk : kind ∈ t.kinds) (h : t.childFault? [] fields.children = some e) :
    t.insert kind fields = (.error e, t) := by
  rw [insert, if_pos (List.contains_iff_mem.2 hk), graft, h]

theorem insert_of_free (hk : kind ∈ t.kinds) (hf : t.Free fields.children) :
    t.insert kind fields = (.ok ⟨t.size⟩, (t.append kind none fields).2) := by
  rw [insert, if_pos (List.contains_iff_mem.2 hk), graft_of_free hf]

/-- The ways in which an insertion ends. -/
theorem insert_cases (t : Tree) (kind : String) (fields : Fields) :
    (kind ∉ t.kinds ∧ t.insert kind fields = (.error (unknownKind kind), t)) ∨
    (kind ∈ t.kinds ∧ ∃ e before id after, fields.children = before ++ id :: after ∧
      t.Free before ∧ t.RefusesChild before id e ∧ t.insert kind fields = (.error e, t)) ∨
    (kind ∈ t.kinds ∧ t.Free fields.children ∧
      t.insert kind fields = (.ok ⟨t.size⟩, (t.append kind none fields).2)) := by
  by_cases hk : kind ∈ t.kinds
  · refine .inr ?_
    cases hfault : t.childFault? [] fields.children with
    | none =>
      have hf := childFault?_eq_none_iff.1 hfault
      exact .inr ⟨hk, hf, insert_of_free hk hf⟩
    | some e =>
      obtain ⟨before, id, after, hids, hbefore, hrefuses⟩ := exists_refusesChild hfault
      exact .inl ⟨hk, e, before, id, after, hids, hbefore, hrefuses, insert_of_fault hk hfault⟩
  · exact .inl ⟨hk, insert_of_not_mem hk⟩

end Tree

namespace Grammar

variable {g : Grammar} {t : Tree}

/-- **All or nothing.** A node is inserted exactly if its kind is one of the grammar and its
children are different nodes of the tree without a parent. Then it comes last, it is the parent of
its children, and all else is as it was. Otherwise all is as it was, and the failure is about the
kind or else about the first child that cannot become one. -/
theorem Reaches.insert_all_or_nothing (h : g.Reaches t) (kind : String) (fields : Fields) :
    ((∃ id t', t.insert kind fields = (.ok id, t')) ↔
      kind ∈ g.kinds ∧ fields.children.Nodup ∧
        ∀ c ∈ fields.children, ∃ node, t.node? c = some node ∧ node.parent = none) ∧
    (∀ id t', t.insert kind fields = (.ok id, t') →
      id = ⟨t.size⟩ ∧ t'.size = t.size + 1 ∧ t'.kinds = t.kinds ∧
      t'.node? id = some { kind, start := none, fields, parent := none } ∧
      ∀ c node, t.node? c = some node →
        t'.node? c = some (if c ∈ fields.children then { node with parent := some id } else node)) ∧
    (∀ e t', t.insert kind fields = (.error e, t') → t' = t ∧
      (kind ∉ g.kinds ∧ e = .badArgument s!"unknown node type: {kind}" ∨
        kind ∈ g.kinds ∧ ∃ before c after, fields.children = before ++ c :: after ∧
          t.Free before ∧ t.RefusesChild before c e)) := by
  rw [← h.owned.2]
  obtain ⟨hk, hinsert⟩ | ⟨hk, e, before, c, after, hc, hbefore, hrefuses, hinsert⟩ |
    ⟨hk, hf, hinsert⟩ := t.insert_cases kind fields
  · rw [hinsert]
    refine ⟨⟨nofun, fun hall => absurd hall.1 hk⟩, nofun, ?_⟩
    rintro _ _ ⟨⟩
    exact ⟨rfl, .inl ⟨hk, rfl⟩⟩
  · refine ⟨⟨fun ⟨id, t', hok⟩ => ?_, fun ⟨_, hnodup, hpresent⟩ => ?_⟩, ?_, ?_⟩
    · cases hinsert.symm.trans hok
    · exact ⟨_, _, Tree.insert_of_free hk ⟨hnodup, hpresent⟩⟩
    · rw [hinsert]
      nofun
    · rw [hinsert]
      rintro _ _ ⟨⟩
      exact ⟨rfl, .inr ⟨hk, before, c, after, hc, hbefore, hrefuses⟩⟩
  · rw [hinsert]
    refine ⟨⟨fun _ => ⟨hk, hf.nodup, hf.present⟩, fun _ => ⟨_, _, rfl⟩⟩, ?_, nofun⟩
    rintro _ _ ⟨⟩
    exact ⟨rfl, Tree.size_append, rfl, Tree.node?_append_new, fun c node => Tree.node?_append_old⟩

/-- Of two faults the one that comes first decides: a node is among the children a second time, and
another one is not in the tree. -/
theorem Reaches.insert_all_or_nothing_twice :
    let t := ((Tree.empty Script.grammar.kinds).insert "Identifier"
      (.ofList [("name", .string "a")])).2
    let fields := Fields.ofList [("name", .node ⟨0⟩), ("args", .list [⟨0⟩, ⟨7⟩])]
    Script.grammar.Reaches t ∧ t.size = 1 ∧ ∃ e, t.insert "Call" fields = (.error e, t) ∧
      e = .badState "Identifier node #0 already has a parent" ∧
      ∃ before c after, fields.children = before ++ c :: after ∧ t.Free before ∧
        t.RefusesChild before c e := by
  intro t fields
  have ht : Script.grammar.Reaches t := .insert _ _ .empty
  have hmem : "Call" ∈ Script.grammar.kinds := by decide
  have hfailure : (t.insert "Call" fields).1 =
      .error (.badState "Identifier node #0 already has a parent") := by decide +kernel
  obtain ⟨-, -, hrefused⟩ := Reaches.insert_all_or_nothing ht "Call" fields
  obtain ⟨hsame, ⟨hkind, -⟩ | ⟨-, hfirst⟩⟩ := hrefused _ _ (Prod.ext hfailure rfl)
  · exact absurd hmem hkind
  · exact ⟨ht, by decide +kernel, _, Prod.ext hfailure hsame, rfl, hfirst⟩

end Grammar
end Descent
