import Descent.Proofs.Text.Boundary

/-!
# Lines and breaks

* `Text.joined`: lines, each with the break that ends it;
* `Text.Divides`: a text that falls into such lines and a last one;
* `Text.WholeBreaks`: such lines of which none ends between the two characters of a break;
* `Text.LineBegins`: the byte offset at which a line begins.

Lines and breaks are found by two recursions that know nothing of each other. A text that is cut
anywhere but in front of a break has the lines of its front part, the last of which goes on with
the first line of the rest, and the breaks of the front part are those that end these lines
(`exists_dividesFront`). So there is one line more than there are breaks, and the last one begins
just past the last break.
-/

namespace Descent.Text

variable {cs l m r : List Char} {found : Breaks} {n : Nat}
  {ended ended' : List (List Char × List Char)} {last last' : List Char}

/-- Lines, each with the break that ends it. -/
def joined (ended : List (List Char × List Char)) : List Char :=
  ended.flatMap fun line => line.1 ++ line.2

@[simp] theorem joined_nil : joined [] = [] := rfl

@[simp] theorem joined_cons (line : List Char × List Char) :
    joined (line :: ended) = line.1 ++ line.2 ++ joined ended := rfl

@[simp] theorem joined_append : joined (ended ++ ended') = joined ended ++ joined ended' :=
  List.flatMap_append

/-- The breaks that end a line. -/
inductive EndsLine : List Char → Prop
  | lineFeed : EndsLine ['\n']
  | carriageReturn : EndsLine ['\r']
  | both : EndsLine ['\r', '\n']

theorem EndsLine.of_isBreak {c : Char} (h : isBreak c = true) : EndsLine [c] := by
  simp only [isBreak, Bool.or_eq_true, beq_iff_eq] at h
  rcases h with rfl | rfl
  · exact .lineFeed
  · exact .carriageReturn

/-- A text falls into lines that are ended by breaks and a last one that is not. -/
structure Divides (cs : List Char) (ended : List (List Char × List Char)) (last : List Char) :
    Prop where
  text : joined ended ++ last = cs
  ended : ∀ line ∈ ended, EndsLine line.2 ∧ ∀ c ∈ line.1, isBreak c = false
  last : ∀ c ∈ last, isBreak c = false

/-- No carriage return that ends a line by itself is followed by a line feed, neither in the lines
nor in front of the text behind them. -/
def WholeBreaks (ended : List (List Char × List Char)) (rest : List Char) : Prop :=
  ∀ before line after, ended = before ++ (line, ['\r']) :: after →
    (joined after ++ rest).head? ≠ some '\n'

theorem wholeBreaks_nil (rest : List Char) : WholeBreaks [] rest := by
  intro before line after h
  cases before <;> cases h

theorem wholeBreaks_cons {line : List Char × List Char} {rest : List Char} :
    WholeBreaks (line :: ended) rest ↔
      (line.2 = ['\r'] → (joined ended ++ rest).head? ≠ some '\n') ∧ WholeBreaks ended rest := by
  constructor
  · intro h
    refine ⟨fun hbreak => h [] line.1 ended (by rw [← hbreak]; rfl), fun before l after he => ?_⟩
    exact h (line :: before) l after (by rw [he]; rfl)
  · rintro ⟨hfirst, hrest⟩ before l after he
    cases before with
    | nil =>
      cases he
      exact hfirst rfl
    | cons first before =>
      cases he
      exact hrest before l after rfl

/-- Line `i`, counted from zero, begins at byte `start`: that is how many bytes there are in the
lines before it and the breaks that end these. -/
def LineBegins (cs : List Char) (i start : Nat) : Prop :=
  ∃ ended last, Divides cs ended last ∧ lines cs = ended.map (·.1) ++ [last] ∧
    i ≤ ended.length ∧ size (joined (ended.take i)) = start

/-! ## The first character -/

/-- A line feed in front of a text belongs to a carriage return before it. -/
private theorem not_lineFeed (hr : r.head?.any isBreak = false) {c : Char}
    (hcr : ∀ cs', c = '\r' → cs = '\n' :: cs' → False) :
    ∀ cs', c = '\r' → cs ++ r = '\n' :: cs' → False := by
  intro cs' hc h
  cases cs with
  | nil =>
    obtain rfl : r = '\n' :: cs' := h
    cases hr
  | cons d cs =>
    cases h
    exact hcr cs hc rfl

theorem lines_cons {c : Char} (hcr : ∀ cs', c = '\r' → cs = '\n' :: cs' → False) :
    lines (c :: cs) = if isBreak c then [] :: lines cs else putFront [c] (lines cs) := by
  rw [lines]
  · split
    · rfl
    · cases lines cs <;> rfl
  · exact hcr

theorem breaksFrom_cons {c : Char} (hcr : ∀ cs', c = '\r' → cs = '\n' :: cs' → False) :
    breaksFrom found n (c :: cs) = breaksFrom
      (if isBreak c then ⟨found.count + 1, n + c.utf8Size⟩ else found) (n + c.utf8Size) cs := by
  rw [breaksFrom]
  exact hcr

/-! ## The front of a text -/

/-- The front of a text, up to a place that is not in front of a break: its lines go on with those
of the rest, and its breaks end the lines that it has in full. -/
structure DividesFront (l : List Char) (ended : List (List Char × List Char)) (last r : List Char) :
    Prop where
  divides : Divides l ended last
  whole : WholeBreaks ended (last ++ r)
  lines_eq : lines (l ++ r) = ended.map (·.1) ++ putFront last (lines r)
  breaksFrom_eq : ∀ found n, breaksFrom found n l =
    ⟨found.count + ended.length,
      if ended = [] then found.lineStart else n + size (joined ended)⟩

private theorem dividesFront_nil (r : List Char) : DividesFront [] [] [] r where
  divides := ⟨rfl, nofun, nofun⟩
  whole := wholeBreaks_nil r
  lines_eq := (putFront_nil r).symm
  breaksFrom_eq _ _ := rfl

/-- A break in front ends an empty line. -/
private theorem DividesFront.break (h : DividesFront l ended last r) {b : List Char}
    (hb : EndsLine b)
    (hlone : b = ['\r'] → (l ++ r).head? ≠ some '\n')
    (hlines : lines (b ++ l ++ r) = [] :: lines (l ++ r))
    (hbreaks : ∀ found n, breaksFrom found n (b ++ l) =
      breaksFrom ⟨found.count + 1, n + size b⟩ (n + size b) l) :
    DividesFront (b ++ l) (([], b) :: ended) last r where
  divides := by
    refine ⟨by simp [← h.divides.text], fun line hline => ?_, h.divides.last⟩
    rcases List.mem_cons.1 hline with rfl | hline
    · exact ⟨hb, nofun⟩
    · exact h.divides.ended line hline
  whole := wholeBreaks_cons.2 ⟨by rwa [← List.append_assoc, h.divides.text], h.whole⟩
  lines_eq := by rw [hlines, h.lines_eq, List.map_cons, List.cons_append]
  breaksFrom_eq found n := by
    rw [hbreaks, h.breaksFrom_eq]
    rw [Breaks.mk.injEq, List.length_cons, if_neg (List.cons_ne_nil _ _)]
    refine ⟨Nat.add_right_comm .., ?_⟩
    split
    next hnil => simp [hnil]
    next => simp [Nat.add_assoc]

/-- Any other character in front belongs to the first line. -/
private theorem DividesFront.plain (h : DividesFront l ended last r) {c : Char}
    (hc : isBreak c = false)
    (hlines : lines (c :: l ++ r) = putFront [c] (lines (l ++ r)))
    (hbreaks : ∀ found n, breaksFrom found n (c :: l) = breaksFrom found (n + c.utf8Size) l) :
    ∃ ended' last', DividesFront (c :: l) ended' last' r := by
  have hfree {line : List Char} (hline : ∀ d ∈ line, isBreak d = false) :
      ∀ d ∈ c :: line, isBreak d = false := List.forall_mem_cons.2 ⟨hc, hline⟩
  cases ended with
  | nil =>
    refine ⟨[], c :: last, ⟨by rw [← h.divides.text]; rfl, nofun, hfree h.divides.last⟩,
      wholeBreaks_nil _, ?_, fun found n => by rw [hbreaks, h.breaksFrom_eq]; rfl⟩
    rw [hlines, h.lines_eq]
    cases lines r <;> rfl
  | cons line ended =>
    obtain ⟨⟨hends, hline⟩, hrest⟩ := List.forall_mem_cons.1 h.divides.ended
    obtain ⟨hlone, hwhole⟩ := wholeBreaks_cons.1 h.whole
    refine ⟨(c :: line.1, line.2) :: ended, last, ⟨by rw [← h.divides.text]; rfl,
      List.forall_mem_cons.2 ⟨⟨hends, hfree hline⟩, hrest⟩, h.divides.last⟩,
      wholeBreaks_cons.2 ⟨hlone, hwhole⟩, ?_, fun found n => ?_⟩
    · rw [hlines, h.lines_eq]
      rfl
    · rw [hbreaks, h.breaksFrom_eq]
      simp [Nat.add_assoc]

theorem exists_dividesFront (l : List Char) (hr : r.head?.any isBreak = false) :
    ∃ ended last, DividesFront l ended last r := by
  fun_induction lines l with
  | case1 => exact ⟨[], [], dividesFront_nil r⟩
  | case2 l ih =>
    obtain ⟨ended, last, h⟩ := ih
    exact ⟨_, last, h.break .both (by simp) rfl fun _ _ => rfl⟩
  | case3 c l hcr hbreak ih =>
    obtain ⟨ended, last, h⟩ := ih
    refine ⟨_, last, h.break (.of_isBreak hbreak) (fun hc hlf => ?_) ?_ fun found n => ?_⟩
    · obtain ⟨rest, hrest⟩ := List.head?_eq_some_iff.1 hlf
      exact not_lineFeed hr hcr rest (List.singleton_inj.1 hc) hrest
    · exact (lines_cons (not_lineFeed hr hcr)).trans (if_pos hbreak)
    · exact (breaksFrom_cons hcr).trans (by rw [if_pos hbreak]; rfl)
  | case4 c l hcr hbreak hlines => exact absurd hlines (lines_ne_nil l)
  | case5 c l hcr hbreak _ _ hlines ih =>
    obtain ⟨ended, last, h⟩ := ih
    refine h.plain (Bool.eq_false_iff.2 hbreak) ?_ fun found n => ?_
    · exact (lines_cons (not_lineFeed hr hcr)).trans (if_neg hbreak)
    · exact (breaksFrom_cons hcr).trans (by rw [if_neg hbreak])

theorem DividesFront.breaks_eq (h : DividesFront l ended last r) :
    breaks l = ⟨ended.length, size (joined ended)⟩ := by
  rw [breaks, h.breaksFrom_eq, Breaks.mk.injEq]
  refine ⟨Nat.zero_add _, ?_⟩
  split
  next hnil => rw [hnil]; rfl
  next => exact Nat.zero_add _

/-! ## Whole texts -/

theorem DividesFront.lines_of_nil (h : DividesFront cs ended last []) :
    lines cs = ended.map (·.1) ++ [last] := by
  have hlines := h.lines_eq
  rw [List.append_nil] at hlines
  rw [hlines]
  simp [lines, putFront]

/-- **A text falls into its lines**, each but the last one with the break that ends it. The breaks
are as many as are counted, and the last line begins where the last break is said to end. -/
theorem exists_divides (cs : List Char) : ∃ ended last, Divides cs ended last ∧
    lines cs = ended.map (·.1) ++ [last] ∧ breaks cs = ⟨ended.length, size (joined ended)⟩ := by
  obtain ⟨ended, last, h⟩ := exists_dividesFront cs (r := []) rfl
  exact ⟨ended, last, h.divides, h.lines_of_nil, h.breaks_eq⟩

theorem length_lines (cs : List Char) : (lines cs).length = (breaks cs).count + 1 := by
  obtain ⟨ended, last, -, hlines, hbreaks⟩ := exists_divides cs
  rw [hlines, hbreaks, List.length_append, List.length_map, List.length_singleton]

theorem isBreak_of_mem_lines {line : List Char} (h : line ∈ lines cs) {c : Char} (hc : c ∈ line) :
    isBreak c = false := by
  obtain ⟨ended, last, hdivides, hlines, -⟩ := exists_divides cs
  rw [hlines, List.mem_append, List.mem_map, List.mem_singleton] at h
  rcases h with ⟨line, hline, rfl⟩ | rfl
  · exact (hdivides.ended line hline).2 c hc
  · exact hdivides.last c hc

/-- The line that the front of a text ends in begins where the front says, also in the whole
text. -/
theorem DividesFront.lineBegins (h : DividesFront l ended last r) :
    LineBegins (l ++ r) ended.length (size (joined ended)) := by
  obtain ⟨ended', last', hr, hlines, -⟩ := exists_divides r
  have hwhole := h.lines_eq
  rw [hlines] at hwhole
  have hfree {line : List Char} (hline : ∀ c ∈ line, isBreak c = false) :
      ∀ c ∈ last ++ line, isBreak c = false :=
    List.forall_mem_append.2 ⟨h.divides.last, hline⟩
  cases ended' with
  | nil =>
    refine ⟨ended, last ++ last', ⟨?_, h.divides.ended, hfree hr.last⟩, hwhole, Nat.le_refl _,
      by rw [List.take_length]⟩
    rw [← h.divides.text, ← hr.text, List.append_assoc]
    rfl
  | cons line ended' =>
    obtain ⟨⟨hends, hline⟩, hrest⟩ := List.forall_mem_cons.1 hr.ended
    refine ⟨ended ++ (last ++ line.1, line.2) :: ended', last', ⟨?_, ?_, hr.last⟩, ?_, by simp,
      by rw [List.take_left]⟩
    · rw [← h.divides.text, ← hr.text]
      simp
    · exact List.forall_mem_append.2 ⟨h.divides.ended,
        List.forall_mem_cons.2 ⟨⟨hends, hfree hline⟩, hrest⟩⟩
    · rw [hwhole]
      simp [putFront]

/-! ## Counting on -/

/-- The breaks of a text are counted in one go or in two, if it is not cut in front of a break. -/
theorem breaks_append (hm : m.head?.any isBreak = false) :
    breaks (l ++ m) = breaksFrom (breaks l) (size l) m := by
  have hfrom : ∀ found n, breaksFrom found n (l ++ m) =
      breaksFrom (breaksFrom found n l) (n + size l) m := by
    intro found n
    fun_induction breaksFrom found n l with
    | case1 => rfl
    | case2 found n l ih =>
      have hsize : size ('\r' :: '\n' :: l) = 2 + size l := (Nat.add_assoc 1 1 _).symm
      exact ih.trans (by rw [hsize, Nat.add_assoc])
    | case3 found n c l hcr next ih =>
      exact (breaksFrom_cons (not_lineFeed hm hcr)).trans (ih.trans (by rw [Nat.add_assoc]; rfl))
  exact (hfrom _ _).trans (by rw [Nat.zero_add]; rfl)

/-- A text without breaks changes nothing, and any other one counts. -/
theorem breaksFrom_eq_or_lt (found : Breaks) (n : Nat) (cs : List Char) :
    breaksFrom found n cs = found ∨ found.count < (breaksFrom found n cs).count := by
  fun_induction breaksFrom found n cs with
  | case1 => exact .inl rfl
  | case2 found n cs ih =>
    refine .inr ?_
    rcases ih with h | h
    · rw [h]
      exact Nat.lt_succ_self _
    · exact Nat.lt_of_succ_lt h
  | case3 found n c cs hcr next ih =>
    by_cases hbreak : isBreak c
    · simp only [if_pos hbreak] at ih ⊢
      refine .inr ?_
      rcases ih with h | h
      · rw [h]
        exact Nat.lt_succ_self _
      · exact Nat.lt_of_succ_lt h
    · simp only [if_neg hbreak] at ih ⊢
      exact ih

theorem count_le_breaksFrom (found : Breaks) (n : Nat) (cs : List Char) :
    found.count ≤ (breaksFrom found n cs).count := by
  rcases breaksFrom_eq_or_lt found n cs with h | h
  · exact Nat.le_of_eq (congrArg Breaks.count h.symm)
  · exact Nat.le_of_lt h

/-- A longer text has no fewer breaks, wherever the shorter one ends. -/
theorem count_breaks_le (l r : List Char) : (breaks l).count ≤ (breaks (l ++ r)).count := by
  suffices ∀ found n, (breaksFrom found n l).count ≤ (breaksFrom found n (l ++ r)).count from
    this _ _
  intro found n
  fun_induction breaksFrom found n l with
  | case1 => exact count_le_breaksFrom ..
  | case2 found n l ih => exact ih
  | case3 found n c l hcr next ih =>
    by_cases hcrlf : ∃ r', c = '\r' ∧ l ++ r = '\n' :: r'
    · -- The text ends between the two characters of a break, which counts already.
      obtain ⟨r', rfl, hlf⟩ := hcrlf
      cases l with
      | nil =>
        obtain rfl : r = '\n' :: r' := hlf
        exact count_le_breaksFrom ⟨found.count + 1, n + 2⟩ (n + 2) r'
      | cons d l =>
        cases hlf
        exact (hcr l rfl rfl).elim
    · rw [List.cons_append, breaksFrom_cons fun r' hc h => hcrlf ⟨r', hc, h⟩]
      exact ih

end Descent.Text
