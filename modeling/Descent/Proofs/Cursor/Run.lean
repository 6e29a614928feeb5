import Descent.Proofs.Cursor.Span

/-!
# Runs of characters

* `isAlpha_iff`, `Word.has_iff`, `Word.forall_has`: letters and the characters of words by their
  numbers;
* `someOf?`: a run of characters of a class, if there is one;
* `Stops`: a text does not go on with a class of characters;
* `spans_some`: a pattern of one character of a class or more takes such a run.
-/

namespace Descent

/-! ## Letters and words -/

theorem isAlpha_iff {c : Char} :
    c.isAlpha ↔ 65 ≤ c.toNat ∧ c.toNat ≤ 90 ∨ 97 ≤ c.toNat ∧ c.toNat ≤ 122 := by
  have hletters : c.isAlpha =
      (decide (c.val ≥ 65 ∧ c.val ≤ 90) || (c.val ≥ 97 && c.val ≤ 122)) := rfl
  simp [hletters, UInt32.le_iff_toNat_le]

theorem Word.has_iff {c : Char} :
    Word.has c ↔ c.isAlpha ∨ 48 ≤ c.toNat ∧ c.toNat ≤ 57 ∨ c.toNat = 95 := by
  simp [Word.has, Char.isAlphanum, Char.isDigit_iff_toNat, ← Char.toNat_inj, or_assoc]

/-- Words are ASCII, so what holds of their characters is checked on the first 128 numbers. -/
theorem Word.forall_has {P : Char → Prop}
    (h : ∀ n < 128, Word.has (Char.ofNat n) → P (Char.ofNat n)) {c : Char} (hc : Word.has c) :
    P c := by
  have hlt : c.toNat < 128 := by
    have hnumber := Word.has_iff.1 hc
    rw [isAlpha_iff] at hnumber
    omega
  have hchecked := h c.toNat hlt
  rw [Char.ofNat_toNat] at hchecked
  exact hchecked hc

theorem has_of_isAlpha {c : Char} (h : c.isAlpha) : Word.has c :=
  Word.has_iff.2 (.inl h)

theorem not_has_of_isSpace {c : Char} (h : Text.isSpace c) : Word.has c = false := by
  simp [Text.isSpace] at h
  rw [Bool.eq_false_iff]
  simp [Word.has_iff, isAlpha_iff]
  omega

theorem not_isSpace_of_has {c : Char} (h : Word.has c) : Text.isSpace c = false := by
  rw [Bool.eq_false_iff]
  intro hs
  rw [not_has_of_isSpace hs] at h
  cases h

/-! ## Where a run ends -/

/-- A text does not begin with a character of a class. -/
def Stops (p : Char → Bool) (r : List Char) : Prop :=
  ∀ c ∈ r.head?, p c = false

variable {p : Char → Bool} {cs l r : List Char}

theorem Stops.cons {c : Char} (h : p c = false) : Stops p (c :: r) := by
  rintro _ ⟨⟩
  exact h

theorem Stops.append (hl : ∀ c ∈ l, p c = false) (hr : l = [] → Stops p r) :
    Stops p (l ++ r) := by
  cases l with
  | nil => exact hr rfl
  | cons c l => exact .cons (hl c (.head _))

/-- A word has no space in front of it. -/
theorem stops_of_has (hne : l ≠ []) (hl : ∀ c ∈ l, Word.has c) (r : List Char) :
    Stops Text.isSpace (l ++ r) :=
  .append (fun c hc => not_isSpace_of_has (hl c hc)) fun hnil => absurd hnil hne

/-- No word goes on behind space, nor where none begins. -/
theorem stops_has_append (hl : ∀ c ∈ l, Text.isSpace c) (hr : l = [] → Stops Word.has r) :
    Stops Word.has (l ++ r) :=
  .append (fun c hc => not_has_of_isSpace (hl c hc)) hr

theorem Stops.dropWhile (h : Stops p r) : r.dropWhile p = r := by
  cases r with
  | nil => rfl
  | cons c r => simp [h c rfl]

theorem Stops.dropWhile_append (h : Stops p r) (hl : ∀ c ∈ l, p c) : (l ++ r).dropWhile p = r := by
  rw [List.dropWhile_append_of_pos hl, h.dropWhile]

theorem Stops.takeWhile_append (h : Stops p r) (hl : ∀ c ∈ l, p c) : (l ++ r).takeWhile p = l := by
  rw [List.takeWhile_append_of_pos hl]
  cases r with
  | nil => simp
  | cons c r => simp [h c rfl]

/-! ## Runs -/

section
variable (p)

/-- A run of characters of a class, if there is one. -/
def someOf? (cs : List Char) : Option (List Char × List Char) :=
  if (cs.takeWhile p).isEmpty then none else some (cs.takeWhile p, cs.dropWhile p)

end

theorem someOf?_cons (c : Char) (cs : List Char) :
    someOf? p (c :: cs) =
      if p c then some (c :: cs.takeWhile p, cs.dropWhile p) else none := by
  cases h : p c <;> simp [someOf?, h]

theorem append_of_someOf? (h : someOf? p cs = some (l, r)) : l ++ r = cs := by
  unfold someOf? at h
  split at h
  · cases h
  · cases h
    exact List.takeWhile_append_dropWhile

theorem mem_of_someOf? (h : someOf? p cs = some (l, r)) : l ≠ [] ∧ ∀ c ∈ l, p c := by
  unfold someOf? at h
  split at h
  · cases h
  next hne =>
    cases h
    exact ⟨by simpa using hne, List.all_eq_true.1 List.all_takeWhile⟩

theorem someOf?_append (hne : l ≠ []) (hl : ∀ c ∈ l, p c) (hr : Stops p r) :
    someOf? p (l ++ r) = some (l, r) := by
  rw [someOf?, hr.takeWhile_append hl, hr.dropWhile_append hl, if_neg (by simpa using hne)]

/-! ## Patterns -/

/-- The digits of all scripts have those of ASCII among them. -/
theorem holds_digits_of_isDigit {c : Char} (h : c.isDigit) : CharSet.digits.holds c := by
  simp [Char.isDigit, UInt32.le_iff_toNat_le] at h
  simp [CharSet.digits, CharSet.holds, CharSet.within, Text.decimalDigits]
  omega

/-- A bound pattern takes what its automaton runs through. -/
theorem spans_of_run {b : BoundRegex} {span? : List Char → Option (List Char × List Char)}
    (hbound : ∀ c, b.regex.automaton.Fronts [b.regex.automaton.start] (some c) ⟨[], false⟩)
    (hrun : ∀ cs, b.regex.automaton.run [b.regex.automaton.start] none cs =
      (span? cs).map (·.1.length))
    (happend : ∀ {cs l r}, span? cs = some (l, r) → l ++ r = cs) :
    (Pattern.regex b).Spans span? where
  extent?_eq cs := by rw [Pattern.extent?, BoundRegex.extent?_eq_run hbound, hrun]
  append_eq := happend

/-- A bound pattern of one character of a class or more. -/
theorem spans_some {b : BoundRegex} {set : CharSet}
    (hb : b.regex = .seq (.anchor .start) (.plus true (.char set))) :
    (Pattern.regex b).Spans (someOf? set.holds) := by
  refine spans_of_run (fun c => ?_) (fun cs => ?_) append_of_someOf?
  · rw [hb]
    exact fun after => rfl
  · rw [hb]
    generalize ha : (Regex.seq (.anchor .start) (.plus true (.char set))).automaton = a
    have hread : a.Fronts [a.start] none ⟨[(set, 1)], false⟩ := ha ▸ fun after => rfl
    have hloop (before : Option Char) : a.Fronts [1] before ⟨[(set, 1)], true⟩ :=
      ha ▸ fun after => rfl
    rw [Automaton.run_read hread cs]
    cases cs with
    | nil => rfl
    | cons c cs =>
      simp only [Automaton.run_loop hloop, someOf?_cons]
      cases set.holds c <;> rfl

end Descent
