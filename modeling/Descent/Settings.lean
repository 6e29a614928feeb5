import Descent.Failure

/-!
# Settings
-/

namespace Descent

/-- The limits that a text is worked on with. -/
structure Settings where
  /-- How many lines a diagnostic shows. It is odd, so that the line at fault can be in the
  middle. -/
  contextLines : Nat := 9
  /-- How many parses may be in progress at once. -/
  maxDepth : Nat := 1000
deriving DecidableEq, Repr

namespace Settings

instance : Inhabited Settings := ⟨{}⟩

/-- Refuses settings that nothing can work with; an even number of lines comes before a zero
depth. -/
def check (s : Settings) : Except Failure Unit :=
  if s.contextLines % 2 = 0 then
    .error (.badArgument s!"context_lines should be odd, got {s.contextLines}")
  else if s.maxDepth = 0 then
    .error (.badArgument "max_depth should be positive")
  else .ok ()

end Settings
end Descent
