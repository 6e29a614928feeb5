import Descent.Cursor.Basic
import Descent.Text.Line

/-!
# Positions and windows

* `Cursor.position`: line, column and offset of a cursor;
* `Window`: some lines of a text, one of them marked, and how a diagnostic shows them;
* `Cursor.diagnostic`: a message about the place of a cursor.
-/

namespace Descent

/-- Some lines of a text and the index of the current one among them. -/
structure Window where
  lines : List String
  current : Nat
deriving DecidableEq, Repr

namespace Window

/-- A number at the right end of a field. -/
def rightAlign (width n : Nat) : String :=
  let digits := toString n
  String.ofList (List.replicate (width - digits.length) ' ') ++ digits

/-- The text of one line: the marker of the current one, its number and what it says. -/
def lineText (current : Bool) (width number : Nat) (line : String) : String :=
  (if current then "> " else "  ") ++ rightAlign width number ++ " |" ++ line

/-- The lines with their numbers, given the number of the current one. -/
def text (w : Window) (line : Nat) : String :=
  if w.lines.isEmpty then ""
  else
    let first := max (line - w.current) 1
    let width := (toString (first + w.lines.length - 1)).length
    "\n".intercalate <| w.lines.mapIdx fun i s =>
      lineText (i == w.current) width (first + i) s

end Window

namespace Cursor

/-- Where a cursor is. On a line break the column is zero. -/
def position (c : Cursor) : Position :=
  let passed := c.behind.reverse
  let breaks := Text.breaks passed
  let line := ((Text.splitAt? breaks.lineStart passed).map (·.2)).getD []
  let column :=
    if c.ahead.head?.any Text.isBreak then 0
    else if breaks.count = 0 then line.length
    else line.length + 1
  ⟨breaks.count + 1, column, c.offset⟩

/-- The line of a cursor and the lines around it, `count` in all. Near an end of the text the block
of lines is shifted; it is smaller only if the text has fewer lines. -/
def window (c : Cursor) (count : Nat) : Except Failure Window :=
  if count % 2 = 0 then .error (.badArgument "lines count should be odd")
  else
    let lines := Text.lines c.text
    let current := min (c.position.line - 1) (lines.length - 1)
    let size := min count lines.length
    let start := min (current - count / 2) (lines.length - size)
    .ok ⟨((lines.drop start).take size).map String.ofList, current - start⟩

/-- A message about the place of a cursor, with the lines around it. -/
def diagnostic (c : Cursor) (message : String) : Diagnostic :=
  let position := c.position
  let context := match c.window c.settings.contextLines with
    | .ok window => window.text position.line
    | .error _ => ""
  ⟨message, position, context⟩

/-- The failure that the text at the cursor is not what it has to be. -/
def unexpected (c : Cursor) (message : String) : Failure :=
  .unexpected (c.diagnostic message)

end Cursor
end Descent
