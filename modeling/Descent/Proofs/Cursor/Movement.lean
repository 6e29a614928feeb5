import Descent.Cursor.Reading

/-!
# Movement of a cursor

Moving to an offset succeeds exactly at the offsets between two characters of the text, and it then
depends on the text alone, not on where the cursor stood.
-/

namespace Descent

namespace Text

theorem size_eq_zero {cs : List Char} : size cs = 0 ↔ cs = [] := by
  cases cs with
  | nil => simp
  | cons c cs =>
    have := c.utf8Size_pos
    simp only [size_cons, reduceCtorEq, iff_false]
    omega

theorem size_of_splitAt? {n : Nat} {cs l r : List Char} (h : splitAt? n cs = some (l, r)) :
    size l = n := by
  induction cs generalizing n l r with
  | nil =>
    cases n with
    | zero => simp_all [splitAt?]
    | succ n => simp [splitAt?] at h
  | cons c cs ih =>
    cases n with
    | zero => simp_all [splitAt?]
    | succ n =>
      simp only [splitAt?] at h
      split at h
      · obtain ⟨⟨l', r'⟩, hlr, heq⟩ := Option.map_eq_some_iff.1 h
        cases heq
        simp only [size_cons, ih hlr]
        omega
      · cases h

theorem splitAt?_eq_some_iff {n : Nat} {cs l r : List Char} :
    splitAt? n cs = some (l, r) ↔ l ++ r = cs ∧ size l = n := by
  refine ⟨fun h => ⟨append_of_splitAt? h, size_of_splitAt? h⟩, ?_⟩
  rintro ⟨rfl, rfl⟩
  exact splitAt?_size l r

/-- Of two cuts of a text the one with fewer bytes in front comes first. -/
theorem append_eq_append_of_size_le {l r l' r' : List Char} (h : l ++ r = l' ++ r')
    (hle : size l ≤ size l') : ∃ m, l' = l ++ m ∧ r = m ++ r' := by
  rcases List.append_eq_append_iff.1 h with ⟨m, hl, hr⟩ | ⟨m, hl, hr⟩
  · exact ⟨m, hl, hr⟩
  · have hm : m = [] := by
      rw [← size_eq_zero]
      rw [hl, size_append] at hle
      omega
    subst hm
    exact ⟨[], by simpa using hl.symm, by simpa using hr.symm⟩

/-- A text is cut at a byte offset in one way only. -/
theorem append_inj_of_size {l r l' r' : List Char} (h : l ++ r = l' ++ r')
    (hs : size l = size l') : l = l' ∧ r = r' := by
  obtain ⟨m, rfl, rfl⟩ := append_eq_append_of_size_le h (Nat.le_of_eq hs)
  have hm : m = [] := by
    rw [← size_eq_zero]
    rw [size_append] at hs
    omega
  simp [hm]

end Text

namespace Cursor

variable {c c' : Cursor}

theorem offset_forward (c : Cursor) (n : Nat) :
    (c.forward n).offset = c.offset + Text.size (c.ahead.take n) := by
  simp [offset, forward, place, Nat.add_comm]

theorem moveTo?_size {l r : List Char} (h : l ++ r = c.text) :
    c.moveTo? (Text.size l) = some (c.place l.reverse r (by simpa using h)) := by
  have hcut : l ++ r = c.behind.reverse ++ c.ahead := h
  unfold moveTo?
  split
  next hle =>
    obtain ⟨m, rfl, hahead⟩ := Text.append_eq_append_of_size_le hcut.symm
      (by rwa [Text.size_reverse])
    have hfound : Text.splitAt? (Text.size (c.behind.reverse ++ m) - c.offset) c.ahead =
        some (m, r) := by
      rw [Text.splitAt?_eq_some_iff]
      exact ⟨hahead.symm, by simp [offset]⟩
    split
    next hsplit =>
      cases hfound.symm.trans hsplit
      simp
    next hsplit => cases hfound.symm.trans hsplit
  next hlt =>
    have hle : Text.size l ≤ Text.size c.behind := Nat.le_of_not_le hlt
    obtain ⟨m, hbehind, rfl⟩ := Text.append_eq_append_of_size_le hcut
      (by rwa [Text.size_reverse])
    have hback : c.behind = m.reverse ++ l.reverse := by
      rw [← List.reverse_append, ← hbehind, List.reverse_reverse]
    have hfound : Text.splitAt? (c.offset - Text.size l) c.behind =
        some (m.reverse, l.reverse) := by
      rw [Text.splitAt?_eq_some_iff]
      exact ⟨hback.symm, by simp [offset, hback]⟩
    split
    next hsplit =>
      cases hfound.symm.trans hsplit
      simp
    next hsplit => cases hfound.symm.trans hsplit

theorem moveTo?_eq_some_iff {offset : Nat} :
    c.moveTo? offset = some c' ↔
      ∃ l r, ∃ h : l ++ r = c.text, Text.size l = offset ∧
        c' = c.place l.reverse r (by simpa using h) := by
  constructor
  · intro h
    unfold moveTo? at h
    split at h
    next hle =>
      split at h
      next l r hsplit =>
        have htext : c.behind.reverse ++ l ++ r = c.text := by
          simp [text, Text.append_of_splitAt? hsplit]
        refine ⟨c.behind.reverse ++ l, r, htext, ?_, ?_⟩
        · have hl := Text.size_of_splitAt? hsplit
          have ho : c.offset = Text.size c.behind := rfl
          simp only [Text.size_append, Text.size_reverse]
          omega
        · cases h
          simp
      next => cases h
    next hlt =>
      split at h
      next l r hsplit =>
        have hback := Text.append_of_splitAt? hsplit
        refine ⟨r.reverse, l.reverse ++ c.ahead, by simp [text, ← hback], ?_, ?_⟩
        · have hl := Text.size_of_splitAt? hsplit
          have hb : c.offset = Text.size l + Text.size r := by
            rw [Cursor.offset, ← hback, Text.size_append]
          simp only [Text.size_reverse]
          omega
        · cases h
          simp
      next => cases h
  · rintro ⟨l, r, h, rfl, rfl⟩
    exact moveTo?_size h

theorem moveTo_size {l r : List Char} (h : l ++ r = c.text) :
    c.moveTo (Text.size l) = c.place l.reverse r (by simpa using h) := by
  simp [moveTo, moveTo?_size h]

theorem goTo_size {l r : List Char} (h : l ++ r = c.text) :
    c.goTo (Text.size l) = (.ok (), c.place l.reverse r (by simpa using h)) := by
  simp [goTo, moveTo?_size h]

end Cursor
end Descent
