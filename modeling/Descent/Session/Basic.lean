import Descent.Cursor.Action
import Descent.Tree

/-!
# Sessions

A session is what parsing works on: a cursor over the text, the tree of the nodes made so far, and
the number of parses in progress.
-/

namespace Descent

/-- The state of a parse. -/
structure Session where
  cursor : Cursor
  tree : Tree
  depth : Nat

namespace Session

/-- A session at a cursor, with nothing parsed yet. -/
def ofCursor (cursor : Cursor) (kinds : List String) : Session :=
  ⟨cursor, .empty kinds, 0⟩

def act (s : Session) (a : Cursor.Action) : Outcome Session a.Answer :=
  let (answer, cursor) := s.cursor.perform a
  (answer, { s with cursor })

/-- Goes back to where a node was parsed from. -/
def rewind (s : Session) (id : NodeId) : Outcome Session Unit :=
  match s.tree.node? id with
  | none => (.error (.badArgument s!"unknown node #{id.index}"), s)
  | some node =>
    match node.start with
    | none => (.error (.badState s!"cannot detect position of {node.kind} node"), s)
    | some start =>
      let (answer, cursor) := s.cursor.goTo start
      (answer, { s with cursor })

def insert (s : Session) (kind : String) (fields : Fields) : Outcome Session NodeId :=
  let (answer, tree) := s.tree.insert kind fields
  (answer, { s with tree })

def copy (s : Session) (id : NodeId) : Outcome Session NodeId :=
  let (answer, tree) := s.tree.copy id
  (answer, { s with tree })

/-- The failure for a node that is to be parsed inside too many others. -/
def tooDeep (s : Session) : Failure :=
  let maxDepth := s.cursor.settings.maxDepth
  .tooDeep s.depth maxDepth
    (s.cursor.diagnostic s!"maximum nesting depth of {maxDepth} exceeded")

end Session
end Descent
