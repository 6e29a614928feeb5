import Descent.Proofs.Text.Lines

/-!
# Lines and breaks in the bytes of a text

* `Text.utf8`: the bytes of a text;
* `Text.walkBreaks`: the breaks of a text counted byte by byte.

No byte of a character that takes more than one is a line feed or a carriage return. So a walk over
the bytes, which knows nothing of characters, finds the breaks that a walk over the characters finds
(`walkBreaks_of_utf8`). With the lines of the front of a text this says that splitting a text into
lines loses nothing (`lines_lossless`).
-/

namespace Descent.Text

variable {cs r : List Char} {c : Char} {b : UInt8} {bytes l post m : List UInt8}
  {found : Breaks} {n : Nat}

/-! ## The bytes of a text -/

/-- The bytes of the UTF-8 form of a text. -/
def utf8 (cs : List Char) : List UInt8 :=
  cs.flatMap String.utf8EncodeChar

theorem utf8_cons (c : Char) (cs : List Char) :
    utf8 (c :: cs) = String.utf8EncodeChar c ++ utf8 cs := rfl

theorem utf8_append (l r : List Char) : utf8 (l ++ r) = utf8 l ++ utf8 r :=
  List.flatMap_append

theorem length_utf8 (cs : List Char) : (utf8 cs).length = size cs := by
  induction cs with
  | nil => rfl
  | cons c cs ih =>
    rw [utf8_cons, List.length_append, String.length_utf8EncodeChar, ih, size_cons]

theorem utf8EncodeChar_of_lt (h : c.toNat < 128) :
    String.utf8EncodeChar c = [UInt8.ofNat c.toNat] :=
  if_pos (Nat.le_of_lt_succ h)

/-- The bytes of a character past the ASCII ones are past them too. -/
theorem le_of_mem_utf8EncodeChar (h : 128 ≤ c.toNat) (hb : b ∈ String.utf8EncodeChar c) :
    128 ≤ b.toNat := by
  have hbyte {k : Nat} (hk : 128 ≤ k) (hk' : k < 256) : 128 ≤ (UInt8.ofNat k).toNat := by
    rwa [UInt8.toNat_ofNat_of_lt' hk']
  have hc : ¬c.val.toNat ≤ 0x7f := Nat.not_le_of_lt h
  simp only [String.utf8EncodeChar, if_neg hc] at hb
  split at hb
  · simp only [List.mem_cons, List.not_mem_nil, or_false] at hb
    rcases hb with rfl | rfl <;> exact hbyte (by omega) (by omega)
  split at hb
  · simp only [List.mem_cons, List.not_mem_nil, or_false] at hb
    rcases hb with rfl | rfl | rfl <;> exact hbyte (by omega) (by omega)
  · simp only [List.mem_cons, List.not_mem_nil, or_false] at hb
    rcases hb with rfl | rfl | rfl | rfl <;> exact hbyte (by omega) (by omega)

/-- A byte of an ASCII code is a character by itself. -/
theorem toNat_of_mem_utf8EncodeChar (hb : b ∈ String.utf8EncodeChar c) (hlt : b.toNat < 128) :
    c.toNat = b.toNat := by
  by_cases hc : c.toNat < 128
  · rw [utf8EncodeChar_of_lt hc, List.mem_singleton] at hb
    rw [hb, UInt8.toNat_ofNat_of_lt' (Nat.lt_trans hc (by decide))]
  · have hle := le_of_mem_utf8EncodeChar (Nat.le_of_not_lt hc) hb
    omega

theorem ne_of_mem_utf8EncodeChar (hc : isBreak c = false) (hb : b ∈ String.utf8EncodeChar c) :
    b ≠ 13 ∧ b ≠ 10 := by
  simp only [isBreak, Bool.or_eq_false_iff, beq_eq_false_iff_ne] at hc
  constructor
  · rintro rfl
    exact hc.2 (Char.toNat_inj.1 (toNat_of_mem_utf8EncodeChar hb (by decide)))
  · rintro rfl
    exact hc.1 (Char.toNat_inj.1 (toNat_of_mem_utf8EncodeChar hb (by decide)))

theorem head?_utf8_eq_lineFeed_iff : (utf8 cs).head? = some 10 ↔ cs.head? = some '\n' := by
  cases cs with
  | nil => simp [utf8]
  | cons c cs =>
    obtain ⟨b, rest, hbytes⟩ := List.exists_cons_of_ne_nil (String.utf8EncodeChar_ne_nil (c := c))
    have hb : b ∈ String.utf8EncodeChar c := hbytes ▸ List.mem_cons_self
    rw [utf8_cons, hbytes, List.cons_append, List.head?_cons, List.head?_cons, Option.some.injEq,
      Option.some.injEq]
    constructor
    · rintro rfl
      exact Char.toNat_inj.1 (toNat_of_mem_utf8EncodeChar hb (by decide))
    · rintro rfl
      exact (List.cons.inj hbytes).1.symm

/-! ## Walking over the bytes -/

/-- Counts the breaks from byte `i` on, given those before it. A carriage return looks at the byte
behind it. -/
def walkBreaks (bytes : List UInt8) (found : Breaks) (i : Nat) : Breaks :=
  if h : i < bytes.length then
    if bytes[i] = 13 then
      if bytes[i + 1]? = some 10 then walkBreaks bytes ⟨found.count + 1, i + 2⟩ (i + 2)
      else walkBreaks bytes ⟨found.count + 1, i + 1⟩ (i + 1)
    else if bytes[i] = 10 then walkBreaks bytes ⟨found.count + 1, i + 1⟩ (i + 1)
    else walkBreaks bytes found (i + 1)
  else found
termination_by bytes.length - i

theorem walkBreaks_of_append (h : l ++ b :: post = bytes) (hn : l.length = n) :
    walkBreaks bytes found n =
      if b = 13 then
        if post.head? = some 10 then walkBreaks bytes ⟨found.count + 1, n + 2⟩ (n + 2)
        else walkBreaks bytes ⟨found.count + 1, n + 1⟩ (n + 1)
      else if b = 10 then walkBreaks bytes ⟨found.count + 1, n + 1⟩ (n + 1)
      else walkBreaks bytes found (n + 1) := by
  subst h hn
  have hlt : l.length < (l ++ b :: post).length := by simp
  have hthis : (l ++ b :: post)[l.length] = b := by simp
  have hnext : (l ++ b :: post)[l.length + 1]? = post.head? := by
    rw [List.getElem?_append_right (Nat.le_succ _)]
    simp [List.head?_eq_getElem?]
  rw [walkBreaks, dif_pos hlt, hthis, hnext]

/-- Bytes that are no breaks change nothing. -/
theorem walkBreaks_of_plain (hm : ∀ b ∈ m, b ≠ 13 ∧ b ≠ 10) (h : l ++ (m ++ post) = bytes)
    (hn : l.length = n) : walkBreaks bytes found n = walkBreaks bytes found (n + m.length) := by
  induction m generalizing l n with
  | nil => rfl
  | cons b m ih =>
    obtain ⟨⟨hcr, hlf⟩, hrest⟩ := List.forall_mem_cons.1 hm
    rw [walkBreaks_of_append h hn, if_neg hcr, if_neg hlf,
      ih hrest (l := l ++ [b]) (by simp [← h]) (by simp [hn]), List.length_cons,
      Nat.add_right_comm, Nat.add_assoc]

/-- The walk over the bytes counts what the walk over the characters counts. -/
theorem walkBreaks_of_utf8 (h : l ++ utf8 r = bytes) (hn : l.length = n) :
    walkBreaks bytes found n = breaksFrom found n r := by
  fun_induction breaksFrom found n r generalizing l with
  | case1 =>
    have hend : ¬l.length < bytes.length := by
      rw [← h]
      simp [utf8]
    rw [walkBreaks, ← hn, dif_neg hend]
  | case2 found n r ih =>
    have h' : l ++ 13 :: 10 :: utf8 r = bytes := h
    rw [walkBreaks_of_append h' hn, if_pos rfl, List.head?_cons, if_pos rfl]
    exact ih (l := l ++ [13, 10]) (by simp [← h']) (by simp [hn])
  | case3 found n c r hcr next =>
    rename_i ih
    have hrest := ih (l := l ++ String.utf8EncodeChar c)
      (by rw [List.append_assoc]; exact h)
      (by rw [List.length_append, String.length_utf8EncodeChar, hn])
    by_cases hbreak : isBreak c
    · rw [if_pos hbreak] at hrest
      rw [if_pos hbreak, ← hrest]
      simp only [isBreak, Bool.or_eq_true, beq_iff_eq] at hbreak
      rcases hbreak with rfl | rfl
      · have h' : l ++ 10 :: utf8 r = bytes := h
        exact walkBreaks_of_append h' hn
      · have h' : l ++ 13 :: utf8 r = bytes := h
        have hlone : (utf8 r).head? ≠ some 10 := by
          intro hhead
          obtain ⟨r', hr⟩ := List.head?_eq_some_iff.1 (head?_utf8_eq_lineFeed_iff.1 hhead)
          exact hcr r' rfl hr
        rw [walkBreaks_of_append h' hn, if_pos rfl, if_neg hlone]
        rfl
    · rw [if_neg hbreak] at hrest
      rw [if_neg hbreak, ← hrest, walkBreaks_of_plain (m := String.utf8EncodeChar c) ?_ h hn,
        String.length_utf8EncodeChar]
      intro b hb
      exact ne_of_mem_utf8EncodeChar (Bool.eq_false_iff.2 hbreak) hb

/-! ## Lines without loss -/

/-- **Splitting a text into lines loses nothing, and counting its breaks agrees with it.** The text
is its lines with a break behind each but the last one. No line has a line feed or a carriage return
in it, and no carriage return is taken for a break by itself in front of a line feed. The breaks are
as many as are counted, in the characters and in the bytes, and the bytes from where the last break
is said to end are those of the last line. Every cut is between two characters. -/
theorem lines_lossless (cs : List Char) :
    ∃ ended last,
      lines cs = ended.map (·.1) ++ [last] ∧
      lines? cs = some (lines cs) ∧
      joined ended ++ last = cs ∧
      (∀ line ∈ ended, EndsLine line.2) ∧
      (∀ line ∈ lines cs, ∀ c ∈ line, c ≠ '\n' ∧ c ≠ '\r') ∧
      (∀ before line after, ended = before ++ (line, ['\r']) :: after →
        (joined after ++ last).head? ≠ some '\n') ∧
      breaks cs = ⟨ended.length, (utf8 (joined ended)).length⟩ ∧
      walkBreaks (utf8 cs) ⟨0, 0⟩ 0 = breaks cs ∧
      (utf8 cs).drop (breaks cs).lineStart = utf8 last := by
  obtain ⟨ended, last, h⟩ := exists_dividesFront cs (r := []) rfl
  have hbreaks : breaks cs = ⟨ended.length, (utf8 (joined ended)).length⟩ := by
    rw [h.breaks_eq, length_utf8]
  refine ⟨ended, last, h.lines_of_nil, lines?_eq cs, h.divides.text,
    fun line hline => (h.divides.ended line hline).1, fun line hline c hc => ?_, ?_, hbreaks,
    walkBreaks_of_utf8 (l := []) rfl rfl, ?_⟩
  · have hfree := isBreak_of_mem_lines hline hc
    simpa only [isBreak, Bool.or_eq_false_iff, beq_eq_false_iff_ne] using hfree
  · have hwhole := h.whole
    rwa [List.append_nil] at hwhole
  · rw [hbreaks, ← h.divides.text, utf8_append, List.drop_left]

end Descent.Text
