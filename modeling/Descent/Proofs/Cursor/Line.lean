import Mathlib.Data.Finset.Card
import Descent.Cursor.Window
import Descent.Proofs.Text.Lines

/-!
# The number of a line

* `Text.BreakAt`: the line breaks of a text, with the byte offsets between which they stand;
* `Text.startsBreak`: whether a character begins a break, given what is in front of it.

The breaks behind a cursor are counted in the text behind it, without a look at what is ahead. So
a break counts from its first character on, which is known from what is in front of it alone
(`Text.exists_begun`). Only one break can have begun and not ended: the cursor then stands between
a carriage return and the line feed that belongs to it.
-/

namespace Descent

namespace Text

variable {l l' r r' : List Char} {c d : Char} {a b : Nat}

/-- A line break: a line feed that no carriage return precedes, a carriage return that no line feed
follows, or a carriage return and a line feed as one. -/
inductive BreakAt (cs : List Char) : Nat → Nat → Prop
  | lineFeed {l r : List Char} : l ++ '\n' :: r = cs → l.getLast? ≠ some '\r' →
    BreakAt cs (size l) (size l + 1)
  | carriageReturn {l r : List Char} : l ++ '\r' :: r = cs → r.head? ≠ some '\n' →
    BreakAt cs (size l) (size l + 1)
  | both {l r : List Char} : l ++ '\r' :: '\n' :: r = cs → BreakAt cs (size l) (size l + 2)

/-! ## Where a break begins -/

/-- A character begins a break, given the one in front of it: a line feed may end one that began
there. -/
def startsBreak (before : Option Char) (c : Char) : Bool :=
  isBreak c && !(before == some '\r' && c == '\n')

/-- Of one more character it is enough to know whether it begins a break. -/
theorem count_breaksFrom_append_singleton (found : Breaks) (n : Nat) (l : List Char) (c : Char) :
    (breaksFrom found n (l ++ [c])).count =
      (breaksFrom found n l).count + if startsBreak l.getLast? c then 1 else 0 := by
  have hlast {d : Char} {l : List Char} (hl : l ≠ []) : (d :: l).getLast? = l.getLast? := by
    rw [List.getLast?_cons_of_ne_nil hl]
  have hlone {d : Char} (cs' : List Char) : d = '\r' → [] = '\n' :: cs' → False :=
    fun _ h => List.cons_ne_nil _ _ h.symm
  fun_induction breaksFrom found n l with
  | case1 found n =>
    rw [List.nil_append, breaksFrom_cons hlone, startsBreak]
    cases isBreak c <;> rfl
  | case2 found n l ih =>
    refine ih.trans ?_
    rcases eq_or_ne l [] with rfl | hl
    · rfl
    · rw [hlast (List.cons_ne_nil _ _), hlast hl]
  | case3 found n d l hcr next ih =>
    rcases eq_or_ne l [] with rfl | hl
    · by_cases hcrlf : d = '\r' ∧ c = '\n'
      · obtain ⟨rfl, rfl⟩ := hcrlf
        rfl
      · have hsecond : startsBreak (some d) c = isBreak c := by
          simp [startsBreak, not_and_or.1 hcrlf]
        have hboth : ∀ cs', d = '\r' → [c] = '\n' :: cs' → False :=
          fun cs' hd hc => hcrlf ⟨hd, (List.cons.inj hc).1⟩
        rw [List.singleton_append, breaksFrom_cons hboth, breaksFrom_cons hlone,
          List.getLast?_singleton, hsecond]
        cases isBreak c <;> rfl
    · obtain ⟨e, l, rfl⟩ := List.exists_cons_of_ne_nil hl
      have hcr' : ∀ cs', d = '\r' → e :: l ++ [c] = '\n' :: cs' → False :=
        fun cs' hd he => hcr l hd (by rw [(List.cons.inj he).1])
      rw [hlast hl, ← ih]
      exact congrArg Breaks.count (breaksFrom_cons hcr')

/-! ## Breaks that have begun -/

/-- Nothing but the next character begins within the bytes of the next character. -/
private theorem eq_of_size_lt (h : l' ++ d :: r' = l ++ c :: r) (hle : size l ≤ size l')
    (hlt : size l' < size l + c.utf8Size) : l' = l ∧ d = c ∧ r' = r := by
  obtain ⟨m, rfl, hm⟩ := append_eq_append_of_size_le h.symm hle
  cases m with
  | nil =>
    obtain ⟨rfl, rfl⟩ := List.cons.inj hm
    simp
  | cons e m =>
    obtain ⟨rfl, -⟩ := List.cons.inj hm
    rw [size_append, size_cons] at hlt
    omega

/-- The break that begins at a character, if one does. -/
theorem breakAt_size_iff (ha : size l ≤ a) (ha' : a < size l + c.utf8Size) :
    BreakAt (l ++ c :: r) a b ↔ startsBreak l.getLast? c ∧ a = size l ∧
      b = size l + if c = '\r' ∧ r.head? = some '\n' then 2 else 1 := by
  constructor
  · intro h
    cases h with
    | lineFeed h hl =>
      obtain ⟨rfl, rfl, rfl⟩ := eq_of_size_lt h ha ha'
      simp [startsBreak, isBreak, hl]
    | carriageReturn h hr =>
      obtain ⟨rfl, rfl, rfl⟩ := eq_of_size_lt h ha ha'
      simp [startsBreak, isBreak, hr]
    | both h =>
      obtain ⟨rfl, rfl, rfl⟩ := eq_of_size_lt h ha ha'
      simp [startsBreak, isBreak]
  · rintro ⟨hstarts, rfl, rfl⟩
    simp only [startsBreak, isBreak, Bool.and_eq_true, Bool.or_eq_true, beq_iff_eq,
      Bool.not_eq_true', Bool.and_eq_false_imp, beq_eq_false_iff_ne] at hstarts
    obtain ⟨rfl | rfl, hlf⟩ := hstarts
    · exact .lineFeed rfl fun hl => hlf hl rfl
    · by_cases hr : r.head? = some '\n'
      · obtain ⟨r, rfl⟩ := List.head?_eq_some_iff.1 hr
        rw [if_pos ⟨rfl, rfl⟩]
        exact .both rfl
      · rw [if_neg fun h => hr h.2]
        exact .carriageReturn rfl hr

/-- One more character adds the break that it begins, if it begins one. -/
private theorem breakAt_append_singleton (l r : List Char) (c : Char) (a b : Nat) :
    BreakAt (l ++ c :: r) a b ∧ a < size l + c.utf8Size ↔
      BreakAt (l ++ c :: r) a b ∧ a < size l ∨ startsBreak l.getLast? c ∧ a = size l ∧
        b = size l + if c = '\r' ∧ r.head? = some '\n' then 2 else 1 := by
  have hpos := c.utf8Size_pos
  rcases Nat.lt_or_ge a (size l) with hlt | hge
  · have hlt' : a < size l + c.utf8Size := Nat.lt_add_right _ hlt
    simp only [hlt, hlt', Nat.ne_of_lt hlt, and_true, false_and, and_false, or_false]
  · simp only [Nat.not_lt_of_le hge, and_false, false_or]
    constructor
    · rintro ⟨h, hlt⟩
      exact (breakAt_size_iff hge hlt).1 h
    · rintro ⟨hstarts, rfl, rfl⟩
      have hlt : size l < size l + c.utf8Size := Nat.lt_add_of_pos_right hpos
      exact ⟨(breakAt_size_iff hge hlt).2 ⟨hstarts, rfl, rfl⟩, hlt⟩

/-- The breaks that begin in the front of a text are as many as are counted there. -/
theorem exists_begun (l r : List Char) : ∃ begun : Finset (Nat × Nat),
    (∀ b, b ∈ begun ↔ BreakAt (l ++ r) b.1 b.2 ∧ b.1 < size l) ∧
      begun.card = (breaks l).count := by
  induction l using List.reverseRecOn generalizing r with
  | nil => exact ⟨∅, by simp, rfl⟩
  | append_singleton l c ih =>
    obtain ⟨begun, hmem, hcard⟩ := ih (c :: r)
    have hcount : (breaks (l ++ [c])).count = _ := count_breaksFrom_append_singleton _ _ l c
    rw [List.append_assoc, List.singleton_append, hcount, size_append, size_cons, size_nil]
    simp only [Nat.add_zero, breakAt_append_singleton, ← hmem]
    by_cases hstarts : startsBreak l.getLast? c
    · refine ⟨insert (size l, size l + if c = '\r' ∧ r.head? = some '\n' then 2 else 1) begun,
        fun b => ?_, ?_⟩
      · simp [hstarts, Prod.ext_iff, or_comm]
      · rw [Finset.card_insert_of_notMem fun h => Nat.lt_irrefl _ ((hmem _).1 h).2, hcard,
          if_pos hstarts]
        rfl
    · refine ⟨begun, by simp [hstarts], ?_⟩
      rw [hcard, if_neg hstarts]
      rfl

/-! ## Breaks that have ended -/

theorem BreakAt.lt {cs : List Char} (h : BreakAt cs a b) : a < b := by
  cases h <;> omega

/-- A cut inside a break is one between a carriage return and its line feed. -/
theorem exists_both (h : BreakAt (l ++ r) a b) (ha : a < size l) (hb : size l < b) :
    ∃ l' r', l = l' ++ ['\r'] ∧ r = '\n' :: r' ∧ a = size l' ∧ b = size l' + 2 := by
  generalize hcs : l ++ r = cs at h
  cases h with
  | lineFeed | carriageReturn => omega
  | @both l' r' h =>
    have hcut : l ++ r = (l' ++ ['\r']) ++ '\n' :: r' := by
      rw [hcs, ← h, List.append_assoc]
      rfl
    have hsize : size l = size (l' ++ ['\r']) := by
      rw [size_append]
      change size l = size l' + 1
      omega
    obtain ⟨rfl, rfl⟩ := append_inj_of_size hcut hsize
    exact ⟨l', r', rfl, rfl, rfl, rfl⟩

/-- Whether a cut is between a carriage return and a line feed. -/
def cutsBreak (l r : List Char) : Bool :=
  l.getLast? == some '\r' && r.head? == some '\n'

/-- Of the breaks that begin in the front of a text all end there but the one that is cut. -/
theorem exists_ended (l r : List Char) : ∃ ended : Finset (Nat × Nat),
    (∀ b, b ∈ ended ↔ BreakAt (l ++ r) b.1 b.2 ∧ b.2 ≤ size l) ∧
      (breaks l).count = ended.card + if cutsBreak l r then 1 else 0 := by
  obtain ⟨begun, hmem, hcard⟩ := exists_begun l r
  by_cases hcut : cutsBreak l r
  · obtain ⟨⟨l, rfl⟩, ⟨r, rfl⟩⟩ : (∃ l', l = l' ++ ['\r']) ∧ ∃ r', r = '\n' :: r' := by
      simpa [cutsBreak, List.getLast?_eq_some_iff, List.head?_eq_some_iff] using hcut
    have hsize : size (l ++ ['\r']) = size l + 1 := size_append ..
    have hcutAt : (size l, size l + 2) ∈ begun :=
      (hmem _).2 ⟨.both (r := r) (by simp), by rw [hsize]; exact Nat.lt_succ_self _⟩
    refine ⟨begun.erase (size l, size l + 2), fun b => ?_, ?_⟩
    · rw [Finset.mem_erase, hmem]
      constructor
      · rintro ⟨hne, h, hlt⟩
        refine ⟨h, Nat.le_of_not_lt fun hgt => hne ?_⟩
        obtain ⟨l', r', hl, -, hstart, hstop⟩ := exists_both h hlt hgt
        obtain rfl : l = l' := List.append_cancel_right hl
        exact Prod.ext hstart hstop
      · rintro ⟨h, hle⟩
        refine ⟨?_, h, h.lt.trans_le hle⟩
        rintro rfl
        omega
    · rw [if_pos hcut, Finset.card_erase_of_mem hcutAt, ← hcard]
      exact (Nat.sub_add_cancel (Finset.card_pos.2 ⟨_, hcutAt⟩)).symm
  · refine ⟨begun, fun b => ?_, by rw [hcard, if_neg hcut]; rfl⟩
    rw [hmem]
    refine and_congr_right fun h => ⟨fun ha => Nat.le_of_not_lt fun hb => ?_, h.lt.trans_le⟩
    obtain ⟨l, r, rfl, rfl, -⟩ := exists_both h ha hb
    exact hcut (by simp [cutsBreak])

end Text

namespace Cursor

/-- **The number of a line.** It is one more than there are breaks that end at or before the cursor,
unless the cursor stands between a carriage return and a line feed: then the break that the two are
counts before it has ended. -/
theorem line_counts_breaks (c : Cursor) : ∃ ended : Finset (Nat × Nat),
    (∀ b, b ∈ ended ↔ Text.BreakAt c.text b.1 b.2 ∧ b.2 ≤ c.offset) ∧
      c.position.line = 1 + ended.card +
        if c.behind.head? = some '\r' ∧ c.next? = some '\n' then 1 else 0 := by
  obtain ⟨ended, hmem, hcount⟩ := Text.exists_ended c.behind.reverse c.ahead
  rw [Text.size_reverse] at hmem
  have hcuts : Text.cutsBreak c.behind.reverse c.ahead ↔
      c.behind.head? = some '\r' ∧ c.next? = some '\n' := by
    simp [Text.cutsBreak, List.getLast?_reverse, next?]
  have hline : c.position.line = (Text.breaks c.behind.reverse).count + 1 := rfl
  refine ⟨ended, hmem, ?_⟩
  rw [hline, hcount]
  simp only [hcuts]
  omega

/-- Between a carriage return and its line feed no break has ended, but it is the second line. -/
theorem line_inside_break :
    let c := (ofText "\r\n").forward 1
    c.offset = 1 ∧ c.position.line = 2 ∧ Text.BreakAt c.text 0 2 ∧
      ¬∃ ended : Finset (Nat × Nat),
        (∀ b, b ∈ ended ↔ Text.BreakAt c.text b.1 b.2 ∧ b.2 ≤ c.offset) ∧
          c.position.line = 1 + ended.card := by
  intro c
  have hboth : Text.BreakAt c.text 0 2 := .both (l := []) (r := []) rfl
  have hline : c.position.line = 2 := by decide
  refine ⟨rfl, hline, hboth, ?_⟩
  rintro ⟨ended, hmem, hcard⟩
  obtain ⟨⟨a, b⟩, hended⟩ : ended.Nonempty := Finset.card_pos.1 (by omega)
  obtain ⟨hbreak, hle⟩ := (hmem _).1 hended
  change b ≤ 1 at hle
  have hlt := hbreak.lt
  obtain rfl : a = 0 := by omega
  have hstop : b = 2 := ((Text.breakAt_size_iff (l := []) (c := '\r') (r := ['\n'])
    (Nat.le_refl 0) (by decide)).1 hbreak).2.2
  omega

end Cursor
end Descent
