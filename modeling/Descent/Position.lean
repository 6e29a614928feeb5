/-!
# Positions and marks
-/

namespace Descent

/-- A place in a text. Lines count from one; on the first line the column is the number of
characters before the place, on later lines one more, and zero on a line break. -/
structure Position where
  line : Nat
  column : Nat
  offset : Nat
deriving DecidableEq, Repr

namespace Position

def start : Position := ⟨1, 0, 0⟩

instance : Inhabited Position := ⟨start⟩

/-- The text `line:column`. -/
def text (p : Position) : String :=
  s!"{p.line}:{p.column}"

end Position

/-- A saved byte offset to come back to. -/
structure Mark where
  offset : Nat
deriving DecidableEq, Repr

end Descent
