import Descent.Json.Inclusion
import Descent.Json.Printer
import Descent.Session.Parse
import Descent.Text.Quoted

/-!
# Fixtures

A fixture is a text with what a production has to make of it: fields that its node must have, or a
pattern that the failure must match. A fixture of fields is also written and parsed again. Every
parse has a session of its own.
-/

namespace Descent

/-- What a parse must come to. -/
inductive Expectation
  | fields (asked : Json)
  | failure (source : String) (pattern : Regex)

/-- A text, the options of every parse and writing of it, and what the parse must come to. -/
structure Fixture where
  input : String
  options : Options
  expectation : Expectation

namespace Fixture

/-- Why a fixture does not hold. -/
inductive Fault
  | setup (e : Failure)
  | absent (kind input : String)
  | refused (kind input : String) (e : Failure)
  | fieldsDiffer (kind input : String) (asked given : Json)
  | unreadable (kind written : String) (e : Failure)
  | rereadDiffers (kind written : String) (asked given : Json)
  | noFailure (kind input source : String)
  | otherFailure (kind input source : String) (e : Failure)

namespace Fault

/-- Two values that should agree, one below the other. -/
def comparison (asked given : Json) : String :=
  s!"expected: {asked.text}\n  actual: {given.text}"

/-- The full text of a fault. -/
def text : Fault → String
  | setup e => s!"grammar setup failed: {e.text}"
  | absent kind input => s!"{kind} did not recognize {Text.quote input}"
  | refused kind input e => s!"parsing {Text.quote input} as {kind} failed: {e.text}"
  | fieldsDiffer kind input asked given =>
    s!"{kind} parsed from {Text.quote input} has unexpected fields\n" ++ comparison asked given
  | unreadable kind written e =>
    s!"{kind} rendered as {Text.quote written} which does not parse back: {e.text}"
  | rereadDiffers kind written asked given =>
    s!"{kind} rendered as {Text.quote written} parses back to different fields\n" ++
      comparison asked given
  | noFailure kind input source =>
    s!"expected {kind} to fail on {Text.quote input} with /{source}/, but it parsed"
  | otherFailure kind input source e =>
    s!"{kind} failed on {Text.quote input} but not with /{source}/: {e.text}"

end Fault

/-- Parses a text in a session of its own. -/
def parse (g : Grammar) (kind : String) (options : Options) (text : String) :
    Outcome Session NodeId :=
  Session.parse g kind options (.ofText text g)

/-- Checks the fields of a parse: the production has to be there, to have the fields, and to have
them again when it is written, as a copy, and parsed a second time. -/
def checkFields (f : Fixture) (g : Grammar) (kind : String) (asked : Json) :
    Except Fault Unit := do
  match g.sees (.ofText f.input g) (.production kind) f.options with
  | .error e => throw (.refused kind f.input e)
  | .ok false => throw (.absent kind f.input)
  | .ok true => pure ()
  match parse g kind f.options f.input with
  | (.error e, _) => throw (.refused kind f.input e)
  | (.ok id, s) =>
    let given := s.tree.json id
    unless asked.includedIn given do
      throw (.fieldsDiffer kind f.input asked given)
    match s.tree.copy id with
    | (.error e, _) => throw (.setup e)
    | (.ok copied, tree) =>
      let written := g.write tree copied f.options
      match parse g kind f.options written with
      | (.error e, _) => throw (.unreadable kind written e)
      | (.ok id, s) =>
        let given := s.tree.json id
        unless asked.includedIn given do
          throw (.rereadDiffers kind written asked given)

/-- Checks the failure of a parse against a pattern, which may match anywhere in its text. -/
def checkFailure (f : Fixture) (g : Grammar) (kind : String) (source : String) (pattern : Regex) :
    Except Fault Unit :=
  match (parse g kind f.options f.input).1 with
  | .ok _ => throw (.noFailure kind f.input source)
  | .error e =>
    if (pattern.find? e.text.toList).isSome then pure ()
    else throw (.otherFailure kind f.input source e)

/-- Checks a fixture against a production. A grammar that cannot be built fails every fixture. -/
def check (f : Fixture) (grammar : Except Failure Grammar) (kind : String) :
    Except Fault Unit :=
  match grammar with
  | .error e => throw (.setup e)
  | .ok g =>
    match f.expectation with
    | .fields asked => f.checkFields g kind asked
    | .failure source pattern => f.checkFailure g kind source pattern

end Fixture
end Descent
