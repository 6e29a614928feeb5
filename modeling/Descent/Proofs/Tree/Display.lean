import Descent.Grammar
import Descent.Proofs.Tree.Walk

/-!
# What a node shows

* `Grammar.Shows`: a node of a tree, its JSON and how it is written.

What a node shows depends on the nodes below it alone, so it stays the same while the tree grows. A
new node shows what its production makes of what its children show.
-/

namespace Descent

variable {t t' : Tree} {id : NodeId} {kind : String} {start : Option Nat} {fields : Fields}

/-! ## Growth changes nothing -/

namespace Tree

/-- The nodes of a tree that keeps those of another, up to one of these. -/
private theorem Keeps.index_lt (h : t.Keeps t') (hid : id.index < t.size) :
    ∃ node parent, t.node? id = some node ∧ t'.node? id = some { node with parent } := by
  obtain ⟨node, hnode⟩ := exists_node? hid
  obtain ⟨parent, hnode'⟩ := h.node? hnode
  exact ⟨node, parent, hnode, hnode'⟩

theorem json_of_size_le (h : t.size ≤ id.index) : t.json id = .null := by
  rw [json, node?_eq_none_iff.2 h]

/-- The JSON of a node, given that of the nodes with smaller numbers. -/
private theorem json_guarded {node : Node} (hn : t.node? id = some node) (f : NodeId → Json)
    (hf : ∀ c, (if c.index < id.index then t.json c else .null) = f c) :
    t.json id = .ofMembers (node.fields.entries.map fun entry => (entry.1,
      match entry.2 with
      | .scalar value => value
      | .node child => f child
      | .list children => .array (children.map f))) := by
  rw [json]
  simp only [hn]
  refine congrArg Json.ofMembers (List.map_congr_left fun entry _ => ?_)
  rcases entry with ⟨name, value | child | children⟩
  · rfl
  · exact congrArg (name, ·) (hf child)
  · exact congrArg (name, Json.array ·) (List.map_congr_left fun c _ => hf c)

theorem Keeps.json_eq (h : t.Keeps t') (hid : id.index < t.size) : t'.json id = t.json id := by
  obtain ⟨n, hn⟩ : ∃ n, id.index = n := ⟨_, rfl⟩
  induction n using Nat.strongRecOn generalizing id with
  | ind n ih =>
    obtain ⟨node, parent, hnode, hnode'⟩ := h.index_lt hid
    rw [json_guarded hnode' _ (fun _ => rfl), json_guarded hnode _ fun c => ?_]
    split
    next hlt => exact (ih c.index (hn ▸ hlt) (Nat.lt_trans hlt hid) rfl).symm
    next => rfl

/-- A new node as JSON. -/
theorem json_append : (t.append kind start fields).2.json ⟨t.size⟩ =
    .ofMembers (fields.entries.map fun entry => (entry.1, t.fieldJson entry.2)) := by
  rw [json_guarded node?_append_new t.json fun c => ?_]
  · rfl
  · split
    next hlt => exact keeps_append.json_eq hlt
    next hle => exact (json_of_size_le (Nat.le_of_not_lt hle)).symm

end Tree

namespace Grammar

variable {g : Grammar} {p : Production}

theorem find?_eq_some_of_find (h : g.find kind = .ok p) : g.find? kind = some p := by
  unfold find at h
  split at h
  next hq =>
    cases h
    exact hq
  next => cases h

theorem name_eq_of_find (h : g.find kind = .ok p) : p.name = kind := by
  simpa using List.find?_some (find?_eq_some_of_find h)

theorem find?_of_find (h : g.find kind = .ok p) : g.find? p.name = some p := by
  rw [name_eq_of_find h, find?_eq_some_of_find h]

theorem write_of_size_le (h : t.size ≤ id.index) (options : Options) :
    g.write t id options = "" := by
  rw [write, Tree.node?_eq_none_iff.2 h]

theorem write_of_keeps (h : t.Keeps t') (hid : id.index < t.size) (options : Options) :
    g.write t' id options = g.write t id options := by
  obtain ⟨n, hn⟩ : ∃ n, id.index = n := ⟨_, rfl⟩
  induction n using Nat.strongRecOn generalizing id options with
  | ind n ih =>
    obtain ⟨node, parent, hnode, hnode'⟩ := h.index_lt hid
    have hbelow :
        (fun child options => if child.index < id.index then g.write t' child options else "") =
        (fun child options => if child.index < id.index then g.write t child options else "") := by
      funext child options
      split
      next hlt => exact ih child.index (hn ▸ hlt) (Nat.lt_trans hlt hid) options rfl
      next => rfl
    rw [write, write]
    simp only [hnode, hnode', hbelow]

/-- How a new node is written. -/
theorem write_append (hp : g.find? p.name = some p) (options : Options) :
    g.write (t.append p.name start fields).2 ⟨t.size⟩ options =
      p.write (g.write t) fields options := by
  have hbelow : (fun child options => if child.index < (⟨t.size⟩ : NodeId).index then
      g.write (t.append p.name start fields).2 child options else "") = g.write t := by
    funext child options
    split
    next hlt => exact write_of_keeps Tree.keeps_append hlt options
    next hle => exact (write_of_size_le (Nat.le_of_not_lt hle) options).symm
  rw [write]
  simp only [Tree.node?_append_new, hp, hbelow]

/-- A node of a tree with its JSON and its source text. -/
structure Shows (g : Grammar) (t : Tree) (id : NodeId) (json : Json) (text : Options → String) :
    Prop where
  lt : id.index < t.size
  json_eq : t.json id = json
  write_eq : ∀ options, g.write t id options = text options

theorem Shows.keeps {json : Json} {text : Options → String} (h : g.Shows t id json text)
    (hk : t.Keeps t') : g.Shows t' id json text := by
  obtain ⟨node, parent, -, hnode⟩ := hk.index_lt h.lt
  exact ⟨Tree.index_lt_of_node? hnode, (hk.json_eq h.lt).trans h.json_eq,
    fun options => (write_of_keeps hk h.lt options).trans (h.write_eq options)⟩

end Grammar
end Descent
