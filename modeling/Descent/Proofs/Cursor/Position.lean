import Mathlib.Data.Prod.Lex
import Descent.Cursor.Window
import Descent.Proofs.Text.Lines

/-!
# Lines and columns

The line and the column of a cursor that is not on a line break tell its offset. They say how many
breaks there are behind the cursor and how many characters since the last of them, so they come
from the last line of what is behind, which is the front part of a line of the text
(`Text.DividesFront`). What lies between two cursors either has no break, and then the column has
grown, or it has one, and then the line has.
-/

namespace Descent

/-- Line and column, compared in this order. -/
def Position.key (p : Position) : Nat ×ₗ Nat :=
  toLex (p.line, p.column)

namespace Cursor

variable {c c' : Cursor} {ended : List (List Char × List Char)} {front : List Char}

theorem exists_dividesFront (hc : c.next?.any Text.isBreak = false) :
    ∃ ended front, Text.DividesFront c.behind.reverse ended front c.ahead :=
  Text.exists_dividesFront _ hc

/-- The position of a cursor in terms of the lines behind it. -/
theorem position_eq (hc : c.next?.any Text.isBreak = false)
    (h : Text.DividesFront c.behind.reverse ended front c.ahead) :
    c.position = ⟨ended.length + 1,
      if ended.length = 0 then front.length else front.length + 1, c.offset⟩ := by
  have hcut : Text.splitAt? (Text.size (Text.joined ended)) c.behind.reverse =
      some (Text.joined ended, front) := Text.splitAt?_eq_some_iff.2 ⟨h.divides.text, rfl⟩
  have hahead : ¬ c.ahead.head?.any Text.isBreak := Bool.not_eq_true _ ▸ hc
  simp only [position, h.breaks_eq, hcut, if_neg hahead, Option.map_some, Option.getD_some]

/-! ## Order -/

theorem key_lt_of_offset_lt (htext : c'.text = c.text) (hc : c.next?.any Text.isBreak = false)
    (hc' : c'.next?.any Text.isBreak = false) (h : c.offset < c'.offset) :
    c.position.key < c'.position.key := by
  obtain ⟨m, hbehind, hahead⟩ := Text.append_eq_append_of_size_le (r := c.ahead) htext.symm (by
    rw [Text.size_reverse, Text.size_reverse]
    exact Nat.le_of_lt h)
  have hm : m ≠ [] := by
    rintro rfl
    have hsize := congrArg Text.size hbehind
    rw [List.append_nil, Text.size_reverse, Text.size_reverse] at hsize
    exact Nat.ne_of_gt h hsize
  have hbreak : m.head?.any Text.isBreak = false := by
    rw [next?, hahead] at hc
    cases m with
    | nil => rfl
    | cons d m => exact hc
  obtain ⟨ended, front, hfronts⟩ := exists_dividesFront hc
  obtain ⟨ended', front', hfronts'⟩ := exists_dividesFront hc'
  have hbreaks := Text.breaks_append hbreak (l := c.behind.reverse)
  rw [← hbehind, hfronts.breaks_eq, hfronts'.breaks_eq] at hbreaks
  rw [position_eq hc hfronts, position_eq hc' hfronts', Position.key, Position.key,
    Prod.Lex.toLex_lt_toLex]
  rcases Text.breaksFrom_eq_or_lt ⟨ended.length, Text.size (Text.joined ended)⟩
    (Text.size c.behind.reverse) m with hsame | hmore
  · -- Both are on one line, which begins at the same offset.
    rw [hsame, Text.Breaks.mk.injEq] at hbreaks
    obtain ⟨hcount, hstart⟩ := hbreaks
    have hdivides : Text.joined ended' ++ front' = Text.joined ended ++ (front ++ m) := by
      rw [hfronts'.divides.text, hbehind, ← hfronts.divides.text, List.append_assoc]
    obtain ⟨-, rfl⟩ := Text.append_inj_of_size hdivides hstart
    have hlength := List.length_pos_iff.2 hm
    refine .inr ⟨congrArg (· + 1) hcount.symm, ?_⟩
    simp only [hcount, List.length_append]
    split <;> omega
  · rw [← hbreaks] at hmore
    exact .inl (Nat.succ_lt_succ hmore)

theorem key_congr (htext : c'.text = c.text) (h : c.offset = c'.offset) :
    c.position.key = c'.position.key := by
  obtain ⟨hbehind, hahead⟩ := Text.append_inj_of_size (r := c.ahead) htext.symm (by
    rw [Text.size_reverse, Text.size_reverse]
    exact h)
  rw [Position.key, Position.key, position, position, hbehind, hahead]

theorem offset_lt_iff_key_lt (htext : c'.text = c.text) (hc : c.next?.any Text.isBreak = false)
    (hc' : c'.next?.any Text.isBreak = false) :
    c.offset < c'.offset ↔ c.position.key < c'.position.key := by
  refine ⟨key_lt_of_offset_lt htext hc hc', fun hkey => ?_⟩
  rcases Nat.lt_trichotomy c.offset c'.offset with h | h | h
  · exact h
  · exact absurd hkey (key_congr htext h ▸ lt_irrefl _)
  · exact absurd hkey (key_lt_of_offset_lt htext.symm hc' hc h).asymm

theorem offset_eq_of_key_eq (htext : c'.text = c.text) (hc : c.next?.any Text.isBreak = false)
    (hc' : c'.next?.any Text.isBreak = false) (h : c.position.key = c'.position.key) :
    c.offset = c'.offset := by
  rcases Nat.lt_trichotomy c.offset c'.offset with hlt | heq | hlt
  · exact absurd (key_lt_of_offset_lt htext hc hc' hlt) (h ▸ lt_irrefl _)
  · exact heq
  · exact absurd (key_lt_of_offset_lt htext.symm hc' hc hlt) (h ▸ lt_irrefl _)

/-! ## The line of a cursor -/

/-- What is between the beginning of its line and a cursor is the front part of the line. -/
theorem exists_line (hc : c.next?.any Text.isBreak = false) :
    ∃ i start line front, c.position.line = i + 1 ∧ (Text.lines c.text)[i]? = some line ∧
      Text.LineBegins c.text i start ∧ start ≤ c.offset ∧
      Text.slice? start c.offset c.text = some front ∧ front <+: line ∧
      c.position.column = if c.position.line = 1 then front.length else front.length + 1 := by
  obtain ⟨ended, front, h⟩ := exists_dividesFront hc
  obtain ⟨line, rest, hline⟩ := List.exists_cons_of_ne_nil (Text.lines_ne_nil c.ahead)
  have hlines : Text.lines c.text = ended.map (·.1) ++ (front ++ line) :: rest := by
    rw [text, h.lines_eq, hline]
    rfl
  have htext : Text.joined ended ++ (front ++ c.ahead) = c.text := by
    rw [← List.append_assoc, h.divides.text, text]
  have hsize : Text.size (Text.joined ended) + Text.size front = c.offset := by
    rw [← Text.size_append, h.divides.text, Text.size_reverse]
    rfl
  rw [position_eq hc h]
  refine ⟨ended.length, _, front ++ line, front, rfl, ?_, h.lineBegins, Nat.le.intro hsize,
    Text.slice?_of_append htext rfl hsize, List.prefix_append .., ?_⟩
  · rw [hlines]
    simp
  · simp

/-- **Line and column tell the offset.** A cursor that is not on a break, or that is at the end of
its text, is on the line of that number, and the column counts the characters between the place
where this line begins and the cursor, which are the front part of the line. Among such cursors of
one text the order of the offsets is the order of the positions, and no two of them share one. -/
theorem position_locates (c : Cursor) (hc : c.next?.any Text.isBreak = false) :
    c.position.line ≤ (Text.lines c.text).length ∧
    (∃ i start line front, c.position.line = i + 1 ∧ (Text.lines c.text)[i]? = some line ∧
      Text.LineBegins c.text i start ∧ start ≤ c.offset ∧
      Text.slice? start c.offset c.text = some front ∧ front <+: line ∧
      c.position.column = if c.position.line = 1 then front.length else front.length + 1) ∧
    ∀ c' : Cursor, c'.text = c.text → c'.next?.any Text.isBreak = false →
      (c.offset < c'.offset ↔ c.position.key < c'.position.key) ∧
      (c.position.key = c'.position.key → c.offset = c'.offset) := by
  have hline := exists_line hc
  refine ⟨?_, hline, fun c' htext hc' =>
    ⟨offset_lt_iff_key_lt htext hc hc', offset_eq_of_key_eq htext hc hc'⟩⟩
  obtain ⟨i, -, line, -, hi, hget, -⟩ := hline
  rw [hi]
  exact (List.getElem?_eq_some_iff.1 hget).1

/-- On the second line, in front of its second character and at its end. -/
theorem position_locates_accents :
    let c := (ofText "\r\néé").forward 3
    let c' := (ofText "\r\néé").forward 4
    c.next?.any Text.isBreak = false ∧ c'.next?.any Text.isBreak = false ∧ c'.text = c.text ∧
      c.position = ⟨2, 2, 4⟩ ∧ c'.position = ⟨2, 3, 6⟩ ∧
      (c.offset < c'.offset ↔ c.position.key < c'.position.key) :=
  ⟨by decide, by decide, rfl, by decide, by decide,
    ((position_locates ((ofText "\r\néé").forward 3) (by decide)).2.2
      ((ofText "\r\néé").forward 4) rfl (by decide)).1⟩

end Cursor
end Descent
