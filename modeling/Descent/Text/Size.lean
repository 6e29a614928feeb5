/-!
# Byte sizes and byte offsets of a text

A text is a list of characters. Offsets into it count the bytes of its UTF-8 form, so only some
offsets fall between two characters; `splitAt?` cuts a text at those and at no other.
-/

namespace Descent.Text

/-- The number of bytes of the UTF-8 form of a text. -/
def size : List Char → Nat
  | [] => 0
  | c :: cs => c.utf8Size + size cs

@[simp] theorem size_nil : size [] = 0 := rfl

@[simp] theorem size_cons (c : Char) (cs : List Char) : size (c :: cs) = c.utf8Size + size cs := rfl

@[simp] theorem size_append (l r : List Char) : size (l ++ r) = size l + size r := by
  induction l with
  | nil => simp
  | cons c l ih => simp [ih, Nat.add_assoc]

@[simp] theorem size_reverse (cs : List Char) : size cs.reverse = size cs := by
  induction cs with
  | nil => rfl
  | cons c cs ih => simp [ih, Nat.add_comm]

/-- Cuts a text after the given number of bytes, if that is between two characters. -/
def splitAt? : Nat → List Char → Option (List Char × List Char)
  | 0, cs => some ([], cs)
  | _ + 1, [] => none
  | n + 1, c :: cs =>
    if c.utf8Size ≤ n + 1 then
      (splitAt? (n + 1 - c.utf8Size) cs).map fun (l, r) => (c :: l, r)
    else none

theorem append_of_splitAt? {n : Nat} {cs l r : List Char} (h : splitAt? n cs = some (l, r)) :
    l ++ r = cs := by
  induction cs generalizing n l r with
  | nil =>
    cases n with
    | zero => simp_all [splitAt?]
    | succ n => simp [splitAt?] at h
  | cons c cs ih =>
    cases n with
    | zero => simp_all [splitAt?]
    | succ n =>
      simp only [splitAt?] at h
      split at h
      · obtain ⟨⟨l', r'⟩, hlr, heq⟩ := Option.map_eq_some_iff.1 h
        cases heq
        simp [ih hlr]
      · cases h

theorem splitAt?_size (l r : List Char) : splitAt? (size l) (l ++ r) = some (l, r) := by
  induction l with
  | nil => simp [splitAt?]
  | cons c l ih =>
    have hpos := c.utf8Size_pos
    obtain ⟨n, hn⟩ : ∃ n, c.utf8Size + size l = n + 1 := ⟨c.utf8Size + size l - 1, by omega⟩
    have hrest : n + 1 - c.utf8Size = size l := by omega
    simp [hn, splitAt?, hrest, ih, show c.utf8Size ≤ n + 1 by omega]

end Descent.Text
