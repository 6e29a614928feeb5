import Descent.Failure
import Descent.Fields

/-!
# Trees

A tree holds every node made so far and never gives one up. A node refers to its children by their
numbers, which are less than its own, and belongs to one parent at most: a node that takes another
as a child becomes its parent, and a child that has one already is refused.
-/

namespace Descent

/-- A node: the production it comes from, the offset it was parsed from, its fields and its parent.
A node that was made by hand has no offset. -/
structure Node where
  kind : String
  start : Option Nat
  fields : Fields
  parent : Option NodeId

/-- The nodes made so far, and the names of the productions they can come from. -/
structure Tree where
  kinds : List String
  nodes : Array Node

namespace Tree

def empty (kinds : List String) : Tree := ⟨kinds, #[]⟩

def node? (t : Tree) (id : NodeId) : Option Node :=
  t.nodes[id.index]?

def size (t : Tree) : Nat :=
  t.nodes.size

/-- The failure about a number that no node of the tree has. -/
def foreign (id : NodeId) : Failure :=
  .badArgument s!"node #{id.index} does not belong to this tree"

/-- The failure about a name that no production has. -/
def unknownKind (kind : String) : Failure :=
  .badArgument s!"unknown node type: {kind}"

/-- Why some nodes cannot all become children of a new one: the first of them that is not in the
tree, or has a parent, or is among those `seen` before it. -/
def childFault? (t : Tree) (seen : List NodeId) : List NodeId → Option Failure
  | [] => none
  | id :: rest =>
    match t.node? id with
    | none => some (foreign id)
    | some node =>
      if node.parent.isSome || seen.contains id then
        some (.badState s!"{node.kind} node #{id.index} already has a parent")
      else t.childFault? (id :: seen) rest

/-- Adds a node and makes it the parent of its children. -/
def append (t : Tree) (kind : String) (start : Option Nat) (fields : Fields) : NodeId × Tree :=
  let id : NodeId := ⟨t.size⟩
  let nodes := fields.children.foldl
    (fun nodes child => nodes.modify child.index fun node => { node with parent := some id })
    t.nodes
  (id, { t with nodes := nodes.push ⟨kind, start, fields, none⟩ })

/-- Adds a node if its children can become its own. -/
def graft (t : Tree) (kind : String) (start : Option Nat) (fields : Fields) :
    Outcome Tree NodeId :=
  match t.childFault? [] fields.children with
  | some e => (.error e, t)
  | none =>
    let (id, t) := t.append kind start fields
    (.ok id, t)

def insert (t : Tree) (kind : String) (fields : Fields) : Outcome Tree NodeId :=
  if t.kinds.contains kind then t.graft kind none fields
  else (.error (unknownKind kind), t)

end Tree

/-- Replaces each node of a list, passing a state along. -/
def NodeId.replaceAll {σ : Type} (replace : NodeId → σ → NodeId × σ) :
    List NodeId → σ → List NodeId × σ
  | [], s => ([], s)
  | id :: ids, s =>
    let (id, s) := replace id s
    let (ids, s) := replaceAll replace ids s
    (id :: ids, s)

/-- Replaces each node that a field refers to, passing a state along. -/
def Field.replace {σ : Type} (replace : NodeId → σ → NodeId × σ) : Field → σ → Field × σ
  | .scalar json, s => (.scalar json, s)
  | .node id, s =>
    let (id, s) := replace id s
    (.node id, s)
  | .list ids, s =>
    let (ids, s) := NodeId.replaceAll replace ids s
    (.list ids, s)

/-- Replaces each node that some entries refer to, in order, passing a state along. -/
def Fields.replaceEntries {σ : Type} (replace : NodeId → σ → NodeId × σ) :
    List (String × Field) → σ → List (String × Field) × σ
  | [], s => ([], s)
  | (name, value) :: rest, s =>
    let (value, s) := value.replace replace s
    let (rest, s) := replaceEntries replace rest s
    ((name, value) :: rest, s)

theorem Fields.map_fst_replaceEntries {σ : Type} (replace : NodeId → σ → NodeId × σ)
    (entries : List (String × Field)) (s : σ) :
    (replaceEntries replace entries s).1.map (·.1) = entries.map (·.1) := by
  induction entries generalizing s with
  | nil => rfl
  | cons entry rest ih =>
    obtain ⟨name, value⟩ := entry
    simp [replaceEntries, ih]

/-- Replaces each node that some fields refer to, in order, passing a state along. -/
def Fields.replace {σ : Type} (replace : NodeId → σ → NodeId × σ) (fields : Fields) (s : σ) :
    Fields × σ :=
  let replaced := replaceEntries replace fields.entries s
  (⟨replaced.1, by rw [map_fst_replaceEntries]; exact fields.nodup⟩, replaced.2)

namespace Tree

/-- Copies a node and all below it, children first. The copy has no parent and keeps the offset. -/
def copyBelow (id : NodeId) (t : Tree) : NodeId × Tree :=
  match t.node? id with
  | none => (id, t)
  | some node =>
    let (fields, t) := node.fields.replace
      (fun child t => if child.index < id.index then copyBelow child t else (child, t)) t
    t.append node.kind node.start fields
termination_by id.index

/-- Copies a node of the tree and all below it. -/
def copy (t : Tree) (id : NodeId) : Outcome Tree NodeId :=
  if id.index < t.size then
    let (copied, t) := copyBelow id t
    (.ok copied, t)
  else (.error (foreign id), t)

/-- The nearest node of a kind above a node. -/
def above? (t : Tree) (id : NodeId) (kind : String) : Option NodeId :=
  match (t.node? id).bind (·.parent) with
  | none => none
  | some parent =>
    if (t.node? parent).any (·.kind == kind) then some parent
    else if id.index < parent.index ∧ parent.index < t.size then t.above? parent kind
    else none
termination_by t.size - id.index

/-- The fields of a node as a JSON object, with the nodes below in full. -/
def json (t : Tree) (id : NodeId) : Json :=
  match t.node? id with
  | none => .null
  | some node =>
    .ofMembers <| node.fields.entries.map fun (name, value) =>
      (name, match value with
        | .scalar value => value
        | .node child => if child.index < id.index then t.json child else .null
        | .list children => .array <| children.map fun child =>
          if child.index < id.index then t.json child else .null)
termination_by id.index

end Tree
end Descent
