import Descent.Options
import Descent.Session.Basic

/-!
# Programs

* `Request`: what a production may ask of the session while it consumes text;
* `Program`: a sequence of requests, each of which may depend on the answers to those before it.

A production touches the session through requests only, so what holds of every request holds of
every production. A failure ends a program unless the program looks at the answer.
-/

namespace Descent

/-- A request to the session. -/
inductive Request
  /-- Lets the cursor act. -/
  | act (a : Cursor.Action)
  /-- Tests whether a pattern, which may name a production, is at the cursor. -/
  | sees (p : Pattern) (options : Options)
  /-- Parses a node. -/
  | parse (kind : String) (options : Options)
  /-- Parses nodes for as long as their production is at the cursor. -/
  | series (kind : String) (options : Options)
  /-- Parses nodes with commas between them. -/
  | commaList (kind : String) (options : Options)
  /-- Goes back to where a node was parsed from. -/
  | rewind (id : NodeId)
  /-- Adds a node made by hand. -/
  | insert (kind : String) (fields : Fields)
  /-- Copies a node and all below it. -/
  | copy (id : NodeId)
  /-- Writes a node as source text. -/
  | write (id : NodeId) (options : Options)
  /-- Asks for the state of the session. -/
  | state

/-- What the session answers. -/
def Request.Answer : Request → Type
  | act a => a.Answer
  | sees .. => Bool
  | parse .. | insert .. | copy _ => NodeId
  | series .. | commaList .. => List NodeId
  | rewind _ => Unit
  | write .. => String
  | state => Session

/-- A sequence of requests that ends with a result. -/
inductive Program (α : Type) : Type
  | done (result : Except Failure α)
  | ask (request : Request) (next : Except Failure request.Answer → Program α)

/-- What answers requests. -/
abbrev Handler := (request : Request) → Session → Outcome Session request.Answer

namespace Program

variable {α β : Type}

/-- Goes on with the result of a program, unless it is a failure. -/
def bind (p : Program α) (f : α → Program β) : Program β :=
  match p with
  | done (.ok a) => f a
  | done (.error e) => done (.error e)
  | ask request next => ask request fun answer => (next answer).bind f

instance : Monad Program where
  pure a := done (.ok a)
  bind := bind

/-- Runs a program with a handler for its requests. -/
def run (handle : Handler) : Program α → Session → Outcome Session α
  | done result, s => (result, s)
  | ask request next, s =>
    let (answer, s) := handle request s
    (next answer).run handle s

/-- One request; a failure ends the program. -/
def request (r : Request) : Program r.Answer :=
  ask r done

def act (a : Cursor.Action) : Program a.Answer :=
  request (.act a)

def fail (message : String) : Program α :=
  bind (act (.fail message)) nofun

def dropSpace : Program Unit :=
  act .dropSpace

def sees (p : Pattern) : Program Bool :=
  act (.sees p)

def take? (p : Pattern) : Program (Option String) :=
  act (.take? p)

def take (p : Pattern) (message : Option String) : Program String :=
  act (.take p message)

def takeThisWord (expected : Option String) : Program String :=
  act (.takeThisWord expected)

def decode (hex : String) : Program Char :=
  act (.decode hex)

def seesProduction (kind : String) (options : Options) : Program Bool :=
  request (.sees (.production kind) options)

def parse (kind : String) (options : Options) : Program NodeId :=
  request (.parse kind options)

def series (kind : String) (options : Options) : Program (List NodeId) :=
  request (.series kind options)

def commaList (kind : String) (options : Options) : Program (List NodeId) :=
  request (.commaList kind options)

def rewind (id : NodeId) : Program Unit :=
  request (.rewind id)

def state : Program Session :=
  request .state

end Program
end Descent
