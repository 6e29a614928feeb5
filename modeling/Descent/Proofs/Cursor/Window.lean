import Mathlib.Logic.ExistsUnique
import Descent.Proofs.Cursor.Safety
import Descent.Proofs.Text.Lines

/-!
# The lines around a cursor

* `Text.Surrounds`: a block of the lines of a text around one of them;
* `Window.row`: how a diagnostic shows a line, character by character;
* `Window.text?`: the text of a window by arithmetic that refuses to go below zero or to clamp.

A window is cut out by truncated subtractions, and its text counts the lines anew from the number
of the current one. The line of a cursor is one of the lines of the text
(`Cursor.position_line_le`), and so the cut is a block around this line and the numbers are those
of the lines in the text.
-/

namespace Descent

theorem Settings.odd_of_check {s : Settings} (h : s.check = .ok ()) : s.contextLines % 2 = 1 := by
  rw [check] at h
  split at h
  · cases h
  next hodd => exact Nat.mod_two_ne_zero.1 hodd

namespace Text

/-- `shown` is a block of `count` lines of a text, or all of them if there are fewer, and line
number `line` is in it at index `current`. It is in the middle if there are enough lines on both
sides of it; otherwise the block reaches to an end of the text. -/
structure Surrounds (lines : List (List Char)) (line count : Nat)
    (before shown after : List (List Char)) (current : Nat) : Prop where
  lines_eq : before ++ shown ++ after = lines
  length_eq : shown.length = min count lines.length
  line_eq : before.length + current + 1 = line
  current_lt : current < shown.length
  middle : count / 2 < line → line + count / 2 ≤ lines.length → current = count / 2
  first : line ≤ count / 2 → before = []
  last : lines.length < line + count / 2 → after = []

/-- A block of an odd number of lines is cut out so that it surrounds a line. -/
theorem surrounds {lines : List (List Char)} {line count start size : Nat} (hcount : count % 2 = 1)
    (hpos : 1 ≤ line) (hle : line ≤ lines.length) (hsize : size = min count lines.length)
    (hstart : start = min (line - 1 - count / 2) (lines.length - size)) :
    Surrounds lines line count (lines.take start) ((lines.drop start).take size)
      (lines.drop (start + size)) (line - 1 - start) where
  lines_eq := by
    rw [← List.drop_drop, List.append_assoc, List.take_append_drop, List.take_append_drop]
  length_eq := by
    rw [List.length_take, List.length_drop]
    omega
  line_eq := by
    rw [List.length_take]
    omega
  current_lt := by
    rw [List.length_take, List.length_drop]
    omega
  middle _ _ := by omega
  first _ := by
    rw [List.take_eq_nil_iff]
    omega
  last _ := by
    rw [List.drop_eq_nil_iff]
    omega

variable {lines before shown after : List (List Char)} {line count current : Nat}

theorem Surrounds.shown_ne_nil (h : Surrounds lines line count before shown after current) :
    shown ≠ [] :=
  List.ne_nil_of_length_pos (Nat.zero_lt_of_lt h.current_lt)

theorem Surrounds.mem_lines (h : Surrounds lines line count before shown after current)
    {l : List Char} (hl : l ∈ shown) : l ∈ lines := by
  rw [← h.lines_eq]
  simp [hl]

end Text

/-! ## The text of a window -/

namespace Window

/-- A row of a diagnostic: a marker, a number at the right end of a field, and a line. -/
def row (current : Bool) (width number : Nat) (line : List Char) : List Char :=
  (if current then '>' else ' ') :: ' ' ::
    ((Nat.toDigits 10 number).leftpad width ' ' ++ ' ' :: '|' :: line)

theorem toList_lineText (current : Bool) (width number : Nat) (line : List Char) :
    (lineText current width number (String.ofList line)).toList =
      row current width number line := by
  have hdigits : toString number = String.ofList (Nat.toDigits 10 number) := rfl
  cases current <;> simp [lineText, rightAlign, row, List.leftpad, hdigits]

/-- A field is as wide as the largest number that it has to hold. -/
theorem length_leftpad_toDigits {number last : Nat} (h : number ≤ last) :
    ((Nat.toDigits 10 number).leftpad (Nat.toDigits 10 last).length ' ').length =
      (Nat.toDigits 10 last).length := by
  have hlast : 0 < (Nat.toDigits 10 last).length := Nat.length_toDigits_pos
  have hle : (Nat.toDigits 10 number).length ≤ (Nat.toDigits 10 last).length :=
    (Nat.length_toDigits_le_iff (by decide) hlast).2 <|
      Nat.lt_of_le_of_lt h ((Nat.length_toDigits_le_iff (by decide) hlast).1 (Nat.le_refl _))
  rw [List.leftpad, List.length_append, List.length_replicate]
  exact Nat.sub_add_cancel hle

theorem not_mem_row {line : List Char} (h : '\n' ∉ line) (current : Bool) (width number : Nat) :
    '\n' ∉ row current width number line := by
  have hdigits : '\n' ∉ Nat.toDigits 10 number := fun hmem =>
    Bool.false_ne_true (Nat.isDigit_of_mem_toDigits (by decide) (by decide) hmem)
  cases current <;> simp [row, List.leftpad, hdigits, h]

/-- `text` by subtractions that fail below zero, and without a least number for the first line. -/
def text? (w : Window) (line : Nat) : Option String :=
  if w.lines.isEmpty then some ""
  else do
    let first ← Cursor.Pointer.minus? line w.current
    let last ← Cursor.Pointer.minus? (first + w.lines.length) 1
    let width := (toString last).length
    return "\n".intercalate <| w.lines.mapIdx fun i s =>
      lineText (i == w.current) width (first + i) s

theorem text?_eq {w : Window} {line : Nat} (h : w.current < line) :
    w.text? line = some (w.text line) := by
  rw [text?, text]
  split
  · rfl
  · have hfirst : max (line - w.current) 1 = line - w.current := by omega
    rw [Cursor.Pointer.minus?_of_le (Nat.le_of_lt h), hfirst]
    simp only [Option.bind_eq_bind, Option.bind_some]
    rw [Cursor.Pointer.minus?_of_le (by omega)]
    rfl

/-- The rows of a diagnostic for the lines after the first `before`, of which line number `line` is
the current one. -/
def rows (before : Nat) (shown : List (List Char)) (line : Nat) : List (List Char) :=
  shown.mapIdx fun i l => row (before + i + 1 == line)
    (Nat.toDigits 10 (before + shown.length)).length (before + i + 1) l

variable {lines before shown after : List (List Char)} {line count current : Nat}

theorem toList_text (h : Text.Surrounds lines line count before shown after current) :
    (text ⟨shown.map String.ofList, current⟩ line).toList =
      ['\n'].intercalate (rows before.length shown line) := by
  have hline := h.line_eq
  have hfirst : max (line - current) 1 = before.length + 1 := by omega
  have hlast : before.length + 1 + shown.length - 1 = before.length + shown.length := by omega
  have hmark (i : Nat) : (i == current) = (before.length + i + 1 == line) := by
    rw [Bool.eq_iff_iff, beq_iff_eq, beq_iff_eq]
    omega
  have hwidth : (toString (before.length + shown.length)).length =
      (Nat.toDigits 10 (before.length + shown.length)).length := String.length_ofList
  have hempty : ¬ (shown.map String.ofList).isEmpty := by simpa using h.shown_ne_nil
  simp only [text, if_neg hempty, String.toList_intercalate, List.length_map, hfirst, hlast, hwidth]
  refine congrArg ['\n'].intercalate (List.ext_getElem (by simp [rows]) fun i hi _ => ?_)
  simp only [rows, List.getElem_map, List.getElem_mapIdx, toList_lineText, hmark,
    Nat.add_right_comm _ 1 i]

theorem not_mem_rows (h : ∀ l ∈ shown, '\n' ∉ l) (n : Nat) :
    ∀ r ∈ rows n shown line, '\n' ∉ r := by
  intro r hr
  obtain ⟨i, hi, rfl⟩ := List.mem_mapIdx.1 hr
  exact not_mem_row (h _ (List.getElem_mem hi)) _ _ _

/-- Only the row of the current line is marked. -/
theorem head?_rows (n i : Nat) : (rows n shown line)[i]?.bind List.head? = some '>' ↔
    i < shown.length ∧ n + i + 1 = line := by
  rw [rows, List.getElem?_mapIdx]
  by_cases hi : i < shown.length
  · by_cases hline : n + i + 1 = line <;> simp [hi, hline, row]
  · simp [hi]

end Window

namespace Cursor

/-! ## The window of a cursor -/

theorem position_line_le (c : Cursor) : c.position.line ≤ (Text.lines c.text).length := by
  rw [Text.length_lines]
  exact Nat.succ_le_succ (Text.count_breaks_le c.behind.reverse c.ahead)

theorem exists_window (c : Cursor) {n : Nat} (hn : n % 2 = 1) :
    ∃ before shown after current,
      Text.Surrounds (Text.lines c.text) c.position.line n before shown after current ∧
      c.window n = .ok ⟨shown.map String.ofList, current⟩ := by
  have hline : min (c.position.line - 1) ((Text.lines c.text).length - 1) = c.position.line - 1 :=
    Nat.min_eq_left (Nat.sub_le_sub_right c.position_line_le 1)
  refine ⟨_, _, _, _, Text.surrounds hn (Nat.le_add_left ..) c.position_line_le rfl rfl, ?_⟩
  have hodd : ¬ n % 2 = 0 := by omega
  simp only [window, if_neg hodd, hline]

theorem diagnostic_context {c : Cursor} {w : Window} (h : c.window c.settings.contextLines = .ok w)
    (message : String) : (c.diagnostic message).context = w.text c.position.line := by
  rw [diagnostic, h]

/-- The block of lines that a diagnostic shows, row by row. -/
theorem splitOn_context {c : Cursor} {before shown after : List (List Char)} {current : Nat}
    (h : Text.Surrounds (Text.lines c.text) c.position.line c.settings.contextLines
      before shown after current)
    (hwindow : c.window c.settings.contextLines = .ok ⟨shown.map String.ofList, current⟩)
    (message : String) : (c.diagnostic message).context.toList.splitOn '\n' =
      Window.rows before.length shown c.position.line := by
  have hshown : ∀ l ∈ shown, '\n' ∉ l := fun l hl hmem =>
    Bool.false_ne_true (Text.isBreak_of_mem_lines (h.mem_lines hl) hmem).symm
  have hrows : Window.rows before.length shown c.position.line ≠ [] := by
    rw [Window.rows, Ne, List.mapIdx_eq_nil_iff]
    exact h.shown_ne_nil
  rw [diagnostic_context hwindow, Window.toList_text h]
  exact List.splitOn_intercalate '\n' (Window.not_mem_rows hshown _) hrows

/-- **The context of a diagnostic.** The line of a cursor is one of the lines of its text. Around it
lies a block of any odd number of lines, which is shifted at an end of the text and smaller only if
the text has fewer lines; it is found without leaving the list of lines and without a number below
zero. A diagnostic shows such a block row by row with the numbers of its lines, each in a field as
wide as the last of them, and marks the row of the cursor alone. -/
theorem window_surrounds (c : Cursor) :
    c.position.line ≤ (Text.lines c.text).length ∧
    (∀ n, n % 2 = 1 → ∃ before shown after current,
      Text.Surrounds (Text.lines c.text) c.position.line n before shown after current ∧
      c.window n = .ok ⟨shown.map String.ofList, current⟩ ∧
      c.pointer.window? n = some (c.window n)) ∧
    (c.settings.check = .ok () → ∀ message, ∃ before shown after current,
      Text.Surrounds (Text.lines c.text) c.position.line c.settings.contextLines
        before shown after current ∧
      Window.text? ⟨shown.map String.ofList, current⟩ c.position.line =
        some (c.diagnostic message).context ∧
      (c.diagnostic message).context.toList.splitOn '\n' =
        Window.rows before.length shown c.position.line ∧
      (∀ i < shown.length,
        ((Nat.toDigits 10 (before.length + i + 1)).leftpad
          (Nat.toDigits 10 (before.length + shown.length)).length ' ').length =
        (Nat.toDigits 10 (before.length + shown.length)).length) ∧
      ∃! i : Nat,
        (Window.rows before.length shown c.position.line)[i]?.bind List.head? = some '>') := by
  refine ⟨c.position_line_le, fun n hn => ?_, fun hcheck message => ?_⟩
  · obtain ⟨before, shown, after, current, h, hwindow⟩ := c.exists_window hn
    exact ⟨before, shown, after, current, h, hwindow, Pointer.window?_pointer c n⟩
  · obtain ⟨before, shown, after, current, h, hwindow⟩ :=
      c.exists_window (Settings.odd_of_check hcheck)
    have hline := h.line_eq
    refine ⟨before, shown, after, current, h, ?_, splitOn_context h hwindow message,
      fun i hi => Window.length_leftpad_toDigits (by omega), current, ?_, fun i hi => ?_⟩
    · rw [diagnostic_context hwindow]
      exact Window.text?_eq (show current < _ by omega)
    · exact (Window.head?_rows ..).2 ⟨h.current_lt, hline⟩
    · have := ((Window.head?_rows ..).1 hi).2
      omega

/-- The second line of three, after a carriage return with its line feed. -/
theorem window_surrounds_middle :
    let c := (ofText "a\r\nb\nc").forward 3
    3 % 2 = 1 ∧ c.settings.check = .ok () ∧ c.position.line = 2 ∧
      (∃ before shown after current, Text.Surrounds [['a'], ['b'], ['c']] 2 3
        before shown after current ∧ c.window 3 = .ok ⟨shown.map String.ofList, current⟩) ∧
      ∃ before shown after current, Text.Surrounds [['a'], ['b'], ['c']] 2 9
        before shown after current ∧
        (c.diagnostic "").context.toList.splitOn '\n' = Window.rows before.length shown 2 := by
  refine ⟨rfl, rfl, by decide, ?_, ?_⟩
  · obtain ⟨before, shown, after, current, h, hwindow, -⟩ :=
      (window_surrounds ((ofText "a\r\nb\nc").forward 3)).2.1 3 rfl
    exact ⟨before, shown, after, current, h, hwindow⟩
  · obtain ⟨before, shown, after, current, h, -, hrows, -⟩ :=
      (window_surrounds ((ofText "a\r\nb\nc").forward 3)).2.2 rfl ""
    exact ⟨before, shown, after, current, h, hrows⟩

end Cursor
end Descent
