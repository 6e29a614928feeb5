import Descent.Proofs.Cursor.Movement
import Descent.Text.Line

/-!
# Cutting a text at byte offsets

* `Text.Boundary`: a byte offset between two characters of a text, or at an end of it;
* `Text.from?`, `Text.upTo?`, `Text.slice?`: parts of a text, which there are at boundaries only;
* `Text.skip?`, `Text.pass?`: the offset past the characters that satisfy a predicate, found from
  one part of the text or from a new part for each character;
* `Text.lines?`: the lines of a text, cut out of it one by one.

A search or a walk that starts at a boundary ends at one, and so none of these fails.
-/

namespace Descent.Text

variable {cs l m r : List Char} {n : Nat}

/-! ## Boundaries -/

/-- A byte offset between two characters of a text, or at an end of it. -/
def Boundary (cs : List Char) (n : Nat) : Prop :=
  ∃ l r, l ++ r = cs ∧ size l = n

theorem boundary_size (l r : List Char) : Boundary (l ++ r) (size l) := ⟨l, r, rfl, rfl⟩

theorem boundary_iff_isSome : Boundary cs n ↔ (splitAt? n cs).isSome := by
  constructor
  · rintro ⟨l, r, rfl, rfl⟩
    rw [splitAt?_size]
    rfl
  · intro h
    obtain ⟨⟨l, r⟩, hcut⟩ := Option.isSome_iff_exists.1 h
    exact ⟨l, r, splitAt?_eq_some_iff.1 hcut⟩

theorem size_toList (s : String) : size s.toList = s.utf8ByteSize := by
  have h (cs : List Char) : size cs = (String.ofList cs).utf8ByteSize := by
    induction cs with
    | nil => rfl
    | cons c cs ih =>
      rw [size_cons, ih, String.ofList_cons, String.utf8ByteSize_append,
        String.utf8ByteSize_singleton]
  rw [h, String.ofList_toList]

/-- The boundaries of a text are the offsets at which its UTF-8 form falls into two. -/
theorem boundary_toList {s : String} : Boundary s.toList n ↔ String.Pos.Raw.IsValid s ⟨n⟩ := by
  rw [String.Pos.Raw.isValid_iff_exists_append]
  constructor
  · rintro ⟨l, r, h, rfl⟩
    refine ⟨String.ofList l, String.ofList r, ?_, ?_⟩
    · rw [← String.ofList_append, h, String.ofList_toList]
    · rw [String.rawEndPos, ← size_toList, String.toList_ofList]
  · rintro ⟨s₁, s₂, rfl, h⟩
    refine ⟨s₁.toList, s₂.toList, String.toList_append.symm, ?_⟩
    rw [size_toList]
    exact (congrArg String.Pos.Raw.byteIdx h).symm

/-! ## Parts of a text -/

/-- The text from a byte offset on. -/
def from? (n : Nat) (cs : List Char) : Option (List Char) :=
  (splitAt? n cs).map (·.2)

/-- The text before a byte offset. -/
def upTo? (n : Nat) (cs : List Char) : Option (List Char) :=
  (splitAt? n cs).map (·.1)

/-- The text from one byte offset up to another, which must not come before it. -/
def slice? (start stop : Nat) (cs : List Char) : Option (List Char) :=
  (upTo? stop cs).bind (from? start)

theorem from?_of_append (h : l ++ r = cs) (hn : size l = n) : from? n cs = some r := by
  rw [from?, splitAt?_eq_some_iff.2 ⟨h, hn⟩]
  rfl

theorem upTo?_of_append (h : l ++ r = cs) (hn : size l = n) : upTo? n cs = some l := by
  rw [upTo?, splitAt?_eq_some_iff.2 ⟨h, hn⟩]
  rfl

theorem slice?_of_append {start stop : Nat} (h : l ++ (m ++ r) = cs) (hstart : size l = start)
    (hstop : start + size m = stop) : slice? start stop cs = some m := by
  have hcut : l ++ m ++ r = cs := by rw [List.append_assoc, h]
  have hsize : size (l ++ m) = stop := by rw [size_append, hstart, hstop]
  rw [slice?, upTo?_of_append hcut hsize]
  exact from?_of_append rfl hstart

/-! ## Searching -/

/-- The byte offset of the first character that satisfies a predicate. -/
def indexOf? (p : Char → Bool) : List Char → Option Nat
  | [] => none
  | c :: cs => if p c then some 0 else (indexOf? p cs).map (c.utf8Size + ·)

/-- The offset of the first character from `n` on that does not satisfy a predicate, or the end of
the text. -/
def skip? (p : Char → Bool) (n : Nat) (cs : List Char) : Option Nat :=
  (from? n cs).map fun rest => ((indexOf? (!p ·) rest).map (n + ·)).getD (size cs)

theorem indexOf?_not (p : Char → Bool) (n : Nat) (cs : List Char) :
    ((indexOf? (!p ·) cs).map (n + ·)).getD (n + size cs) = n + size (cs.takeWhile p) := by
  induction cs generalizing n with
  | nil => rfl
  | cons c cs ih =>
    cases hp : p c with
    | true =>
      have hrest := ih (n + c.utf8Size)
      simp only [indexOf?, hp, Bool.not_true, Bool.false_eq_true, if_false, Option.map_map,
        List.takeWhile_cons_of_pos, size_cons, ← Nat.add_assoc]
      rw [← hrest]
      simp only [Function.comp_def, Nat.add_assoc]
    | false => simp [indexOf?, hp]

theorem skip?_of_append (p : Char → Bool) (h : l ++ r = cs) (hn : size l = n) :
    skip? p n cs = some (n + size (r.takeWhile p)) := by
  rw [skip?, from?_of_append h hn, Option.map_some, ← h, size_append, hn, indexOf?_not]

/-! ## Walking -/

theorem size_of_from? (h : from? n cs = some r) : n + size r = size cs := by
  obtain ⟨⟨l, _⟩, hcut, rfl⟩ := Option.map_eq_some_iff.1 h
  obtain ⟨rfl, rfl⟩ := splitAt?_eq_some_iff.1 hcut
  exact (size_append ..).symm

/-- The offset past the characters from `n` on that satisfy a predicate, which may depend on where
they are. The text is cut anew for each character. -/
def pass? (p : Nat → Char → Bool) (cs : List Char) (n : Nat) : Option Nat :=
  match _h : from? n cs with
  | none => none
  | some [] => some n
  | some (c :: _) => if p n c then pass? p cs (n + c.utf8Size) else some n
termination_by size cs - n
decreasing_by
  have hsize := size_of_from? _h
  have hpos := c.utf8Size_pos
  rw [size_cons] at hsize
  omega

/-- The characters at the front of a text that begins at byte `n` of the whole that satisfy a
predicate. -/
def passed (p : Nat → Char → Bool) : Nat → List Char → List Char
  | _, [] => []
  | n, c :: cs => if p n c then c :: passed p (n + c.utf8Size) cs else []

theorem passed_const (p : Char → Bool) (n : Nat) (cs : List Char) :
    passed (fun _ => p) n cs = cs.takeWhile p := by
  induction cs generalizing n with
  | nil => rfl
  | cons c cs ih => cases hp : p c <;> simp [passed, hp, ih]

theorem passed_prefix (p : Nat → Char → Bool) (n : Nat) (cs : List Char) :
    passed p n cs <+: cs := by
  induction cs generalizing n with
  | nil => exact List.prefix_refl _
  | cons c cs ih =>
    rw [passed]
    split
    · exact List.prefix_cons_inj c |>.2 (ih _)
    · exact List.nil_prefix

theorem pass?_of_append (p : Nat → Char → Bool) (h : l ++ r = cs) (hn : size l = n) :
    pass? p cs n = some (n + size (passed p n r)) := by
  induction r generalizing l n with
  | nil =>
    have hend := from?_of_append h hn
    rw [pass?]
    split
    next hnone => cases hend.symm.trans hnone
    next => rfl
    next hsome => cases hend.symm.trans hsome
  | cons c r ih =>
    have hhere := from?_of_append h hn
    have hnext := ih (l := l ++ [c]) (by simp [← h]) (by rw [size_append, hn])
    rw [pass?]
    split
    next hnone => cases hhere.symm.trans hnone
    next hnil => cases hhere.symm.trans hnil
    next hcons =>
      cases hhere.symm.trans hcons
      rw [size_cons, size_nil, Nat.add_zero] at hnext
      rw [hnext, passed]
      split
      · rw [size_cons, Nat.add_assoc]
      · rfl

/-! ## Lines -/

/-- The lines of a text from `start` on, cut out of it at each break that is found from `i` on. -/
def linesFrom? (cs : List Char) : Nat → Nat → List Char → Option (List (List Char))
  | start, _, [] => (from? start cs).map ([·])
  | start, i, '\r' :: '\n' :: rest => do
    let line ← slice? start i cs
    let lines ← linesFrom? cs (i + 2) (i + 2) rest
    return line :: lines
  | start, i, c :: rest =>
    if isBreak c then do
      let line ← slice? start i cs
      let lines ← linesFrom? cs (i + 1) (i + 1) rest
      return line :: lines
    else linesFrom? cs start (i + c.utf8Size) rest

/-- The lines of a text, cut out of it one by one. -/
def lines? (cs : List Char) : Option (List (List Char)) :=
  linesFrom? cs 0 0 cs

/-- Lines with some text put in front of the first one. -/
def putFront (m : List Char) : List (List Char) → List (List Char)
  | [] => [m]
  | line :: lines => (m ++ line) :: lines

theorem utf8Size_of_isBreak {c : Char} (h : isBreak c = true) : c.utf8Size = 1 := by
  simp only [isBreak, Bool.or_eq_true, beq_iff_eq] at h
  rcases h with rfl | rfl <;> rfl

theorem lines_ne_nil (cs : List Char) : lines cs ≠ [] := by
  fun_induction lines cs with
  | _ => simp

theorem putFront_nil (cs : List Char) : putFront [] (lines cs) = lines cs := by
  cases h : lines cs with
  | nil => exact absurd h (lines_ne_nil cs)
  | cons line lines => rfl

/-- The lines cut out of a text from `l` on, when `m` has been found to be free of breaks. -/
theorem linesFrom?_of_append {start i : Nat} (htext : l ++ (m ++ r) = cs) (hstart : size l = start)
    (hi : start + size m = i) : linesFrom? cs start i r = some (putFront m (lines r)) := by
  fun_induction lines r generalizing l m start i with
  | case1 =>
    rw [linesFrom?, from?_of_append htext hstart]
    simp [putFront]
  | case2 r ih =>
    have hrest := @ih (l ++ m ++ ['\r', '\n']) [] (i + 2) (i + 2) (by simp [← htext])
      (by rw [size_append, size_append, hstart, hi]; rfl) rfl
    rw [linesFrom?, slice?_of_append htext hstart hi, hrest, putFront_nil]
    simp [putFront]
  | case3 c r hcr hbreak ih =>
    have hrest := @ih (l ++ m ++ [c]) [] (i + 1) (i + 1) (by simp [← htext])
      (by simp [hstart, utf8Size_of_isBreak hbreak]; omega) rfl
    rw [linesFrom?, if_pos hbreak, slice?_of_append htext hstart hi, hrest, putFront_nil]
    · simp [putFront]
    · exact hcr
  | case4 c r hcr hbreak hlines ih => exact absurd hlines (lines_ne_nil r)
  | case5 c r hcr hbreak line lines hlines ih =>
    have hrest := @ih l (m ++ [c]) start (i + c.utf8Size) (by simp [← htext]) hstart
      (by simp [← hi]; omega)
    rw [linesFrom?, if_neg hbreak, hrest, hlines]
    · simp [putFront]
    · exact hcr

theorem lines?_eq (cs : List Char) : lines? cs = some (lines cs) := by
  rw [← putFront_nil]
  exact linesFrom?_of_append (l := []) rfl rfl rfl

/-- Where the last line begins is a boundary. -/
theorem boundary_lineStart {found : Breaks} (h : Boundary cs found.lineStart)
    (htext : l ++ r = cs) (hn : size l = n) : Boundary cs (breaksFrom found n r).lineStart := by
  fun_induction breaksFrom found n r generalizing l with
  | case1 => exact h
  | case2 found n r ih =>
    have hbreak : l ++ ['\r', '\n'] ++ r = cs := by simp [← htext]
    have hsize : size (l ++ ['\r', '\n']) = n + 2 := by rw [size_append, hn]; rfl
    exact ih (hsize ▸ hbreak ▸ boundary_size _ r) hbreak hsize
  | case3 found n c r hcr next =>
    rename_i ih
    have hnext : l ++ [c] ++ r = cs := by simp [← htext]
    have hsize : size (l ++ [c]) = next := by simp [hn, next]
    refine ih ?_ hnext hsize
    split
    · exact hsize ▸ hnext ▸ boundary_size _ r
    · exact h

theorem boundary_breaks (cs : List Char) : Boundary cs (breaks cs).lineStart :=
  boundary_lineStart (l := []) ⟨[], cs, rfl, rfl⟩ rfl rfl

end Descent.Text
