import Descent.Phrase
import Descent.Proofs.Session.Reach
import Descent.Proofs.Tree.Duplicate

/-!
# Copies in the trees of a grammar

* `Production.Uniform`: a production that writes a node the same under other numbers;
* `Grammar.DeepCopy`: what comes of copying a node.

The productions of scripts and phrases look at their fields by name and leave the nodes in them to
be written by others, so they are uniform. Then a copy is written as the original is, by induction
from the bottom up.
-/

namespace Descent

variable {f : NodeId → NodeId} {write write' : NodeId → Options → String} {fields : Fields}

/-! ## Writing nodes under other numbers -/

section
variable (h : ∀ c ∈ fields.children, ∀ options, write' (f c) options = write c options)
  (options : Options) (name : String)
include h

theorem Fields.nodeText_map :
    (fields.map f).nodeText write' options name = fields.nodeText write options name := by
  rw [nodeText, nodeText, node?_map]
  cases hnode : fields.node? name with
  | none => rfl
  | some id => exact h id (node?_mem_children hnode) options

theorem Fields.listTexts_map :
    (fields.map f).listTexts write' options name = fields.listTexts write options name := by
  rw [listTexts, listTexts, list_map, List.map_map]
  apply List.map_congr_left
  intro id hid
  exact h id (list_subset_children hid) options

end

/-- A production writes a node from its fields and from how the nodes in them are written, whatever
the numbers of these are. -/
def Production.Uniform (p : Production) : Prop :=
  ∀ ⦃f write write' fields⦄,
    (∀ c ∈ fields.children, ∀ options, write' (f c) options = write c options) →
    ∀ options, p.write write' (fields.map f) options = p.write write fields options

namespace Script

theorem uniform_identifier : identifier.Uniform :=
  fun _ _ _ _ _ _ => Fields.text_map ..

theorem uniform_number : number.Uniform := by
  intro f write write' fields _ options
  simp only [number, Fields.scalar?_map]

theorem uniform_text : text.Uniform := by
  intro f write write' fields _ options
  simp only [text, Fields.text_map]

theorem uniform_call : call.Uniform := by
  intro f write write' fields h options
  simp only [call, Fields.nodeText_map h, Fields.listTexts_map h]

theorem uniform_expression : expression.Uniform := by
  intro f write write' fields h options
  have hpart : alternatives.findSome? (fields.map f).node? =
      (alternatives.findSome? fields.node?).map f := by
    rw [List.map_findSome?]
    exact congrArg (alternatives.findSome? ·) (funext (Fields.node?_map f fields))
  simp only [expression, hpart]
  cases hfound : alternatives.findSome? fields.node? with
  | none => rfl
  | some id =>
    obtain ⟨name, -, hname⟩ := List.exists_of_findSome?_eq_some hfound
    exact h id (Fields.node?_mem_children hname) options

theorem uniform_letBinding : letBinding.Uniform := by
  intro f write write' fields h options
  simp only [letBinding, Fields.nodeText_map h]

theorem uniform_script : script.Uniform := by
  intro f write write' fields h options
  simp only [script, Fields.listTexts_map h]

theorem uniform : ∀ p ∈ grammar.productions, p.Uniform := by
  simp only [grammar, List.forall_mem_cons]
  exact ⟨uniform_identifier, uniform_number, uniform_text, uniform_call, uniform_expression,
    uniform_letBinding, uniform_script, nofun⟩

end Script

namespace Phrase

theorem uniform_anyWord : anyWord.Uniform :=
  fun _ _ _ _ _ _ => Fields.text_map ..

theorem uniform_number : number.Uniform := by
  intro f write write' fields _ options
  simp only [number, Fields.scalar?_map]

theorem uniform_letters : letters.Uniform :=
  fun _ _ _ _ _ _ => Fields.text_map ..

theorem uniform_greeting : greeting.Uniform := by
  intro f write write' fields h options
  simp only [greeting, Fields.nodeText_map h]

theorem uniform_sentence : sentence.Uniform := by
  intro f write write' fields h options
  simp only [sentence, Fields.listTexts_map h]

theorem uniform_nested : nested.Uniform := by
  intro f write write' fields h options
  simp only [nested, Fields.node?_map, Fields.text_map]
  cases hinner : fields.node? "inner" with
  | none => rfl
  | some id =>
    have hid := h id (Fields.node?_mem_children hinner) options
    simp only [Option.map_some, hid]

theorem uniform_nothing : nothing.Uniform :=
  fun _ _ _ _ _ _ => rfl

theorem uniform_garbled : garbled.Uniform :=
  fun _ _ _ _ _ _ => rfl

theorem uniform : ∀ p ∈ grammar.productions, p.Uniform := by
  simp only [grammar, List.forall_mem_cons]
  exact ⟨uniform_anyWord, uniform_number, uniform_letters, uniform_greeting, uniform_sentence,
    uniform_nested, uniform_nothing, uniform_garbled, nofun⟩

end Phrase

/-! ## Copies -/

namespace Grammar

variable {g : Grammar} {t t' : Tree} {id n : NodeId}

/-- A copy is written as the original is. -/
theorem write_of_duplicates (hg : ∀ p ∈ g.productions, p.Uniform)
    (h : Tree.Duplicates f t id t') (hn : t.Within id n) (options : Options) :
    g.write t' (f n) options = g.write t n options := by
  apply hn.induct (P := fun n => ∀ options, g.write t' (f n) options = g.write t n options) h.owned
  intro n hn ih options
  obtain ⟨node, parent, hnode, hcopy⟩ := h.copied n hn
  rw [write, write, hnode, hcopy]
  cases hp : g.find? node.kind with
  | none => simp only [hp]
  | some p =>
    simp only [hp]
    apply hg p (List.mem_of_find?_eq_some hp)
    intro c hc options
    have hchild : t.Refers n c := ⟨node, hnode, hc⟩
    have hcopied : t'.Refers (f n) (f c) :=
      (Tree.refers_of_copied (h.copied n hn)).2 ⟨c, hchild, rfl⟩
    rw [if_pos (h.owned.below hchild), if_pos (h.owned'.below hcopied), ih c hchild]

/-- What comes of copying a node: `f` takes the node and all below it, which are the nodes in
`nodes`, to their copies. -/
structure DeepCopy (g : Grammar) (t : Tree) (id : NodeId) (f : NodeId → NodeId)
    (nodes : List NodeId) (t' : Tree) : Prop where
  copy_eq : t.copy id = (.ok (f id), t')
  last : (f id).index + 1 = t'.size
  /-- All old nodes are as they were. -/
  grows : t.Extends t'
  nodup : nodes.Nodup
  mem_iff : ∀ n, n ∈ nodes ↔ t.Within id n
  size : t'.size = t.size + nodes.length
  detached : ∃ node, t'.node? (f id) = some node ∧ node.parent = none
  bijOn : Set.BijOn f {n | t.Within id n} {n | t'.Within (f id) n}
  /-- All copies are new. -/
  new : ∀ n, t.Within id n → n.index < t.size ∧ t.size ≤ (f n).index
  copied : ∀ n, t.Within id n → Tree.Copied f t t' n
  parent_eq : ∀ p c, t.Within id p → t.Refers p c →
    ∃ node, t'.node? (f c) = some node ∧ node.parent = some (f p)
  json_eq : t'.json (f id) = t.json id
  write_eq : g = Script.grammar ∨ g = Phrase.grammar →
    ∀ options, g.write t' (f id) options = g.write t id options

theorem exists_deepCopy (g : Grammar) (ho : t.Owned) (hid : id.index < t.size) :
    ∃ f nodes t', DeepCopy g t id f nodes t' := by
  obtain ⟨f, nodes, hroot, hd, hnodup, hmem, hsize, hnew⟩ := ho.exists_duplicates hid
  have hs := ho.copyBelow_sprouts hid
  have hlast := (ho.copies_copyBelow hid).last
  rw [hroot] at hs hlast
  refine ⟨f, nodes, (Tree.copyBelow id t).2, ?_, hlast, hs.grows, hnodup, hmem, hsize,
    hs.fresh.free.present _ (List.mem_singleton_self _), hd.bijOn,
    fun n hn => ⟨hn.index_lt ho hid, hnew n⟩, hd.copied, fun p c => hd.parent_eq,
    hd.json_eq (.refl t id), ?_⟩
  · rw [Tree.copy, if_pos hid, ← hroot]
  · rintro (rfl | rfl) options
    · exact write_of_duplicates Script.uniform hd (.refl t id) options
    · exact write_of_duplicates Phrase.uniform hd (.refl t id) options

/-- **Deep copies.** In every tree a copy of a node comes last and adds one node for each below it:
the two have the same shape and nothing in common, they show the same, and all other nodes are as
they were. What is no node of the tree is not copied. -/
theorem Reaches.copy_deep (h : g.Reaches t) :
    (∀ id, id.index < t.size → ∃ f nodes t', DeepCopy g t id f nodes t') ∧
    ∀ id, t.size ≤ id.index → t.copy id = (.error (Tree.foreign id), t) ∧
      (Tree.foreign id).kind = .badArgument := by
  refine ⟨fun id hid => exists_deepCopy g h.owned.1 hid, fun id hid => ⟨?_, rfl⟩⟩
  rw [Tree.copy, if_neg (Nat.not_lt_of_le hid)]

/-- Of the eleven nodes of a script ten are below its last one. -/
theorem Reaches.copy_deep_script :
    let s := Session.ofText "let a = f(b, 1);" Script.grammar
    let t := (s.handle Script.grammar (.parse "Script" none)).2.tree
    t.size = 11 ∧ ∃ f nodes t', DeepCopy Script.grammar t ⟨10⟩ f nodes t' ∧ nodes.length = 10 := by
  intro s t
  have ht : Script.grammar.Reaches t := .request s _ .empty
  have hsize : t.size = 11 := by decide +kernel
  obtain ⟨f, nodes, t', hcopy⟩ := (Reaches.copy_deep ht).1 ⟨10⟩ (by rw [hsize]; decide)
  have hcopied : (t.copy ⟨10⟩).2.size = 21 := by decide +kernel
  rw [hcopy.copy_eq] at hcopied
  have hlength := hcopy.size
  refine ⟨hsize, f, nodes, t', hcopy, ?_⟩
  simp only at hcopied
  omega

end Grammar
end Descent
