import Descent.Program

/-!
# Productions and grammars

A production says when it is at the cursor, how it consumes text, and how its nodes are written. A
grammar is a list of productions with different names; parsing and writing look them up in it.
-/

namespace Descent

structure Production where
  name : String
  /-- Whether the production is at the cursor. The first argument tests a pattern there, and so
  other productions. -/
  starts : (Pattern → Options → Except Failure Bool) → Session → Options →
    Except Failure Bool
  /-- Consumes the production and returns the fields of its node. -/
  body : Options → Program Fields
  /-- Writes a node, given how the nodes below it are written. -/
  write : (NodeId → Options → String) → Fields → Options → String

namespace Fields

/-- The node of a name as source text; nothing if the name has no node. -/
def nodeText (fields : Fields) (write : NodeId → Options → String) (options : Options)
    (name : String) : String :=
  match fields.node? name with
  | some id => write id options
  | none => ""

def listTexts (fields : Fields) (write : NodeId → Options → String) (options : Options)
    (name : String) : List String :=
  (fields.list name).map (write · options)

/-- The text of a name; empty if the name has none. -/
def text (fields : Fields) (name : String) : String :=
  (fields.string? name).getD ""

end Fields

/-- Productions with different names. -/
structure Grammar where
  productions : List Production
  nodup : (productions.map (·.name)).Nodup

namespace Grammar

def empty : Grammar := ⟨[], List.nodup_nil⟩

/-- The names of the productions, in their order. -/
def kinds (g : Grammar) : List String :=
  g.productions.map (·.name)

/-- Adds a production. A name can be given once only. -/
def add (g : Grammar) (p : Production) : Except Failure Grammar :=
  if h : p.name ∈ g.productions.map (·.name) then
    .error (.badArgument s!"node type {p.name} registered twice")
  else
    .ok ⟨g.productions ++ [p], by
      rw [List.map_append, List.nodup_append]
      refine ⟨g.nodup, by simp, ?_⟩
      rintro a ha b hb rfl
      have heq : a = p.name := List.mem_singleton.1 hb
      exact h (heq ▸ ha)⟩

def ofList (productions : List Production) : Except Failure Grammar :=
  productions.foldlM add empty

def find? (g : Grammar) (kind : String) : Option Production :=
  g.productions.find? (·.name == kind)

/-- A production by name, which has to be one of the grammar. -/
def find (g : Grammar) (kind : String) : Except Failure Production :=
  match g.find? kind with
  | some p => .ok p
  | none => .error (Tree.unknownKind kind)

/-- Names in ascending order. -/
def sortNames (kinds : List String) : List String :=
  kinds.mergeSort fun a b => !(decide (b < a))

/-- Whether a pattern is at the cursor. A production may refer to others, at most `fuel` deep. -/
def seesWithin (g : Grammar) (s : Session) : Nat → Pattern → Options → Except Failure Bool
  | 0, .production kind, _ => do
    let p ← g.find kind
    .error (.badState s!"{p.name} is recognized through itself")
  | fuel + 1, .production kind, options => do
    let p ← g.find kind
    p.starts (g.seesWithin s fuel) s options
  | _, p, _ => s.cursor.sees p

/-- Whether a pattern is at the cursor. A longer row of references than there are productions runs
in a circle. -/
def sees (g : Grammar) (s : Session) (p : Pattern) (options : Options) :
    Except Failure Bool :=
  g.seesWithin s g.productions.length p options

/-- Whether a production is at the cursor. -/
def seesStart (g : Grammar) (p : Production) (options : Options) (s : Session) :
    Except Failure Bool :=
  p.starts (g.sees s) s options

/-- Writes a node of a tree as source text. -/
def write (g : Grammar) (t : Tree) (id : NodeId) (options : Options) : String :=
  match t.node? id with
  | none => ""
  | some node =>
    match g.find? node.kind with
    | none => ""
    | some p =>
      p.write
        (fun child options => if child.index < id.index then g.write t child options else "")
        node.fields options
termination_by id.index

end Grammar
end Descent
