import Descent.Grammar

/-!
# Parsing

How a session answers requests. A node is parsed by running the program of its production one level
deeper, and the levels left are the fuel of the recursion. Repetitions run round by round. An
element that keeps moving the cursor back could be repeated for ever, so their rounds are limited,
far beyond what elements need that only move forward.
-/

namespace Descent

namespace Session

/-- How many rounds a repetition may take beyond one for each character ahead. -/
def patience : Nat := 1000000

/-- What a round of a repetition ends with. -/
inductive Round
  /-- There is no further element. -/
  | stop
  /-- An element, and no other after it. -/
  | last (id : NodeId)
  /-- An element, and perhaps more. -/
  | next (id : NodeId)
deriving DecidableEq, Repr

/-- Repeats a round, at most `fuel` times, after the elements `found` so far. -/
def collect (round : Session → Outcome Session Round) (found : List NodeId) :
    Nat → Session → Outcome Session (List NodeId)
  | 0, s => (.error (.badState "a repetition does not end"), s)
  | fuel + 1, s =>
    match round s with
    | (.error e, s) => (.error e, s)
    | (.ok .stop, s) => (.ok found.reverse, s)
    | (.ok (.last id), s) => (.ok (id :: found).reverse, s)
    | (.ok (.next id), s) => collect round (id :: found) fuel s

/-- Repeats a round until it says that it was the last. -/
def collectAll (round : Session → Outcome Session Round) (s : Session) :
    Outcome Session (List NodeId) :=
  collect round [] (s.cursor.ahead.length + 1 + patience) s

end Session

/-- Parses a node of a production one level deeper, where `inner` answers the requests; there is no
such level when too many parses are in progress. -/
def Production.parse (p : Production) (inner : Option Handler) (options : Options)
    (s : Session) : Outcome Session NodeId :=
  if s.depth ≥ s.cursor.settings.maxDepth then (.error s.tooDeep, s)
  else
    match inner with
    | none => (.error s.tooDeep, s)
    | some handle =>
      match (p.body options).run handle { s with depth := s.depth + 1 } with
      | (.error e, after) => (.error e, { after with depth := after.depth - 1 })
      | (.ok fields, after) =>
        let (answer, tree) := after.tree.graft p.name (some s.cursor.offset) fields
        (answer, { after with tree, depth := after.depth - 1 })

namespace Grammar

def parse (g : Grammar) (inner : Option Handler) (kind : String) (options : Options)
    (s : Session) : Outcome Session NodeId :=
  match g.find kind with
  | .error e => (.error e, s)
  | .ok p => p.parse inner options s

/-- A round of a series: an element after any space. If there is none, the space stays unread. An
element has to end elsewhere than it began. -/
def seriesRound (g : Grammar) (inner : Option Handler) (p : Production) (options : Options)
    (s : Session) : Outcome Session Session.Round :=
  let spaced := { s with cursor := s.cursor.dropSpace }
  match g.seesStart p options spaced with
  | .error e => (.error e, spaced)
  | .ok false => (.ok .stop, { spaced with cursor := spaced.cursor.moveTo s.cursor.offset })
  | .ok true =>
    match p.parse inner options spaced with
    | (.error e, after) => (.error e, after)
    | (.ok id, after) =>
      if after.cursor.offset = spaced.cursor.offset then
        (.error (.badState s!"{p.name} matched without consuming input inside a chain"), after)
      else (.ok (.next id), after)

/-- A round of a comma-separated list: an element, which has to be there, with space around it, and
perhaps a comma. -/
def commaRound (g : Grammar) (inner : Option Handler) (p : Production) (options : Options)
    (s : Session) : Outcome Session Session.Round :=
  let spaced := { s with cursor := s.cursor.dropSpace }
  match g.seesStart p options spaced with
  | .error e => (.error e, spaced)
  | .ok false => (.error (spaced.cursor.unexpected s!"expected: {p.name}"), spaced)
  | .ok true =>
    match p.parse inner options spaced with
    | (.error e, after) => (.error e, after)
    | (.ok id, after) =>
      match after.cursor.dropSpace.take? (.literal ",") with
      | (.error e, cursor) => (.error e, { after with cursor })
      | (.ok none, cursor) => (.ok (.last id), { after with cursor })
      | (.ok (some _), cursor) => (.ok (.next id), { after with cursor })

/-- Parses nodes with space between them for as long as their production is at the cursor. -/
def series (g : Grammar) (inner : Option Handler) (kind : String) (options : Options)
    (s : Session) : Outcome Session (List NodeId) :=
  match g.find kind with
  | .error e => (.error e, s)
  | .ok p => Session.collectAll (g.seriesRound inner p options) s

/-- Parses one node or more with commas between them. -/
def commaList (g : Grammar) (inner : Option Handler) (kind : String) (options : Options)
    (s : Session) : Outcome Session (List NodeId) :=
  match g.find kind with
  | .error e => (.error e, s)
  | .ok p => Session.collectAll (g.commaRound inner p options) s

/-- Answers a request, given what answers those of nodes one level deeper. -/
def answer (g : Grammar) (inner : Option Handler) : Handler
  | .act a, s => s.act a
  | .sees p options, s => (g.sees s p options, s)
  | .parse kind options, s => g.parse inner kind options s
  | .series kind options, s => g.series inner kind options s
  | .commaList kind options, s => g.commaList inner kind options s
  | .rewind id, s => s.rewind id
  | .insert kind fields, s => s.insert kind fields
  | .copy id, s => s.copy id
  | .write id options, s => (.ok (g.write s.tree id options), s)
  | .state, s => (.ok s, s)

/-- Answers requests with the given number of levels left. -/
def handler (g : Grammar) : Nat → Handler
  | 0, request, s => g.answer none request s
  | levels + 1, request, s => g.answer (some (g.handler levels)) request s

end Grammar

namespace Session

def handle (g : Grammar) (request : Request) (s : Session) : Outcome Session request.Answer :=
  g.handler (s.cursor.settings.maxDepth - s.depth) request s

def run {α : Type} (g : Grammar) (p : Program α) (s : Session) : Outcome Session α :=
  p.run (handle g) s

/-- Parses a node at the cursor. -/
def parse (g : Grammar) (kind : String) (options : Options) (s : Session) :
    Outcome Session NodeId :=
  s.handle g (.parse kind options)

def ofText (text : String) (g : Grammar) : Session :=
  ofCursor (.ofText text) g.kinds

/-- A session at the start of a text with settings, which have to pass their check. -/
def withSettings (text : String) (g : Grammar) (settings : Settings) : Except Failure Session :=
  (Cursor.withSettings text settings).map (ofCursor · g.kinds)

end Session
end Descent
