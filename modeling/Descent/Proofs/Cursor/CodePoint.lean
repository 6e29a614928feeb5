import Descent.Cursor.Reading
import Descent.Proofs.Text.Digit

/-!
# Code points

* `Text.hexadecimal32?`: the number of hexadecimal digits, computed in 32 bits.

The code point of an escape is a natural number, with no bound on its digits. The computation in 32
bits fails as soon as a product or a sum does not fit, so it gives this number or nothing
(`Text.hexadecimal32?_eq_some_iff`), and every code point fits.
-/

namespace Descent

namespace Text

variable {a b w : UInt32} {cs : List Char}

/-! ## Digits in 32 bits -/

/-- The product of two numbers, if it fits. -/
def mul32? (a b : UInt32) : Option UInt32 :=
  if a.toNat * b.toNat < UInt32.size then some (a * b) else none

/-- The sum of two numbers, if it fits. -/
def add32? (a b : UInt32) : Option UInt32 :=
  if a.toNat + b.toNat < UInt32.size then some (a + b) else none

/-- Reads hexadecimal digits one by one. No product and no sum may need more than 32 bits. -/
def readDigits32? (cs : List Char) : Option UInt32 :=
  cs.foldl (fun total c => total.bind fun n => (mul32? n 16).bind fun shifted =>
    (hexDigit? c).bind fun d => add32? shifted (UInt32.ofNat d)) (some 0)

/-- The number that a text of hexadecimal digits denotes, if it fits. -/
def hexadecimal32? (cs : List Char) : Option UInt32 :=
  if cs.isEmpty then none else readDigits32? cs

theorem mul32?_eq_some_iff : mul32? a b = some w ↔ a.toNat * b.toNat = w.toNat := by
  rw [mul32?, Option.ite_none_right_eq_some, Option.some.injEq]
  constructor
  · rintro ⟨hfits, rfl⟩
    rw [UInt32.toNat_mul, Nat.mod_eq_of_lt hfits]
  · intro h
    have hfits : a.toNat * b.toNat < UInt32.size := h ▸ w.toNat_lt_size
    refine ⟨hfits, UInt32.toNat_inj.1 ?_⟩
    rw [UInt32.toNat_mul, Nat.mod_eq_of_lt hfits, h]

theorem add32?_eq_some_iff : add32? a b = some w ↔ a.toNat + b.toNat = w.toNat := by
  rw [add32?, Option.ite_none_right_eq_some, Option.some.injEq]
  constructor
  · rintro ⟨hfits, rfl⟩
    rw [UInt32.toNat_add, Nat.mod_eq_of_lt hfits]
  · intro h
    have hfits : a.toNat + b.toNat < UInt32.size := h ▸ w.toNat_lt_size
    refine ⟨hfits, UInt32.toNat_inj.1 ?_⟩
    rw [UInt32.toNat_add, Nat.mod_eq_of_lt hfits, h]

theorem hexDigit?_lt {c : Char} {d : Nat} (h : hexDigit? c = some d) : d < 16 :=
  (hexDigit?_eq_some_iff.1 h).1

/-- In 32 bits one reads the number itself, not what is left of it modulo `2 ^ 32`. -/
theorem readDigits32?_eq_some_iff :
    readDigits32? cs = some w ↔ readDigits? hexDigit? 16 cs = some w.toNat := by
  induction cs using List.reverseRecOn generalizing w with
  | nil =>
    rw [readDigits32?, readDigits?, List.foldl_nil, List.foldl_nil, Option.some.injEq,
      Option.some.injEq, ← UInt32.toNat_inj]
    rfl
  | append_singleton cs c ih =>
    have hstep : readDigits32? (cs ++ [c]) = (readDigits32? cs).bind fun n =>
        (mul32? n 16).bind fun shifted => (hexDigit? c).bind fun d =>
          add32? shifted (UInt32.ofNat d) := by
      simp [readDigits32?, List.foldl_append]
    have hofNat {d : Nat} (hd : hexDigit? c = some d) : (UInt32.ofNat d).toNat = d :=
      UInt32.toNat_ofNat_of_lt' ((hexDigit?_lt hd).trans (by decide))
    simp only [hstep, readDigits?_append_singleton, Option.bind_eq_some_iff,
      Option.map_eq_some_iff, mul32?_eq_some_iff, add32?_eq_some_iff, ih]
    constructor
    · rintro ⟨n, hn, shifted, hshifted, d, hd, hw⟩
      exact ⟨_, hn, d, hd, by rw [← hw, ← hshifted, hofNat hd]; rfl⟩
    · rintro ⟨n, hn, d, hd, hw⟩
      have hlt : w.toNat < UInt32.size := w.toNat_lt_size
      have hn' : (UInt32.ofNat n).toNat = n := UInt32.toNat_ofNat_of_lt' (by omega)
      have hshifted : (UInt32.ofNat (n * 16)).toNat = n * 16 :=
        UInt32.toNat_ofNat_of_lt' (by omega)
      exact ⟨.ofNat n, by rw [hn, hn'], .ofNat (n * 16), by rw [hn', hshifted]; rfl, d, hd,
        by rw [hshifted, hofNat hd, hw]⟩

theorem hexadecimal32?_eq_some_iff :
    hexadecimal32? cs = some w ↔ IsHexadecimal cs w.toNat := by
  rw [← hexadecimal?_eq_some_iff, hexadecimal32?, hexadecimal?, Option.ite_none_left_eq_some,
    Option.ite_none_left_eq_some, readDigits32?_eq_some_iff]

end Text

namespace Cursor

/-! ## Characters -/

/-- The code point of an escape is a number in hexadecimal digits. -/
theorem codePoint?_eq_some_iff {hex : String} {c : Char} :
    codePoint? hex = some c ↔ Text.IsHexadecimal hex.toList c.toNat := by
  rw [← Text.hexadecimal?_eq_some_iff, codePoint?]
  constructor
  · intro h
    obtain ⟨n, hn, hc⟩ := Option.bind_eq_some_iff.1 h
    obtain ⟨hvalid, hc⟩ := Option.dite_none_right_eq_some.1 hc
    cases hc
    rw [hn]
    exact congrArg some (UInt32.toNat_ofNatLT ..).symm
  · intro h
    rw [h, Option.bind_some]
    exact dif_pos c.valid

theorem codePoint?_hex (c : Char) : codePoint? (Text.hex c.toNat) = some c :=
  codePoint?_eq_some_iff.2 (Text.hexadecimal?_eq_some_iff.1 (Text.hexadecimal?_hex c.toNat))

theorem decode_eq_ok_iff {cursor : Cursor} {hex : String} {c : Char} :
    cursor.decode hex = .ok c ↔ codePoint? hex = some c := by
  unfold decode
  cases codePoint? hex <;> simp

/-- The character of a 32-bit number that is a code point. -/
def charOf? (w : UInt32) : Option Char :=
  if h : w.isValidChar then some ⟨w, h⟩ else none

theorem charOf?_eq_some_iff {w : UInt32} {c : Char} : charOf? w = some c ↔ c.val = w := by
  unfold charOf?
  constructor
  · intro h
    obtain ⟨hvalid, hc⟩ := Option.dite_none_right_eq_some.1 h
    cases hc
    rfl
  · rintro rfl
    exact dif_pos c.valid

/-- **Decoding code points.** A text is decoded to a character exactly if it is a number in
hexadecimal digits, one or more and of either case, that is the code point of the character. So it
is decoded exactly if the number is not past the last code point and not that of a surrogate. What
an escape is written with is decoded to the character. To compute the number in 32 bits makes no
difference: what does not fit is refused there, and is past the last code point. -/
theorem decode_code_points (cursor : Cursor) (hex : String) :
    (∀ c, cursor.decode hex = .ok c ↔ Text.IsHexadecimal hex.toList c.toNat) ∧
    ((∃ c, cursor.decode hex = .ok c) ↔ ∃ n, Text.IsHexadecimal hex.toList n ∧
      n ≤ 0x10FFFF ∧ ¬(0xD800 ≤ n ∧ n ≤ 0xDFFF)) ∧
    (∀ c, cursor.decode (Text.hex c.toNat) = .ok c) ∧
    (∀ w, Text.hexadecimal32? hex.toList = some w ↔ Text.IsHexadecimal hex.toList w.toNat) ∧
    ∀ c, cursor.decode hex = .ok c ↔
      (Text.hexadecimal32? hex.toList).bind charOf? = some c := by
  have hdecode (c : Char) : cursor.decode hex = .ok c ↔ Text.IsHexadecimal hex.toList c.toNat :=
    decode_eq_ok_iff.trans codePoint?_eq_some_iff
  refine ⟨hdecode, ⟨?_, ?_⟩, fun c => decode_eq_ok_iff.2 (codePoint?_hex c),
    fun w => Text.hexadecimal32?_eq_some_iff, fun c => ?_⟩
  · rintro ⟨c, hc⟩
    refine ⟨c.toNat, (hdecode c).1 hc, ?_⟩
    have hvalid : c.toNat < 0xD800 ∨ 0xDFFF < c.toNat ∧ c.toNat < 0x110000 := c.valid
    omega
  · rintro ⟨n, hn, hlast, hsurrogate⟩
    have hvalid : n.isValidChar := show n < 0xD800 ∨ 0xDFFF < n ∧ n < 0x110000 by omega
    refine ⟨Char.ofNatAux n hvalid, (hdecode _).2 ?_⟩
    have hcode : (Char.ofNatAux n hvalid).toNat = n := UInt32.toNat_ofNatLT ..
    rwa [hcode]
  · rw [hdecode, Option.bind_eq_some_iff]
    simp only [Text.hexadecimal32?_eq_some_iff, charOf?_eq_some_iff]
    constructor
    · intro h
      exact ⟨c.val, h, rfl⟩
    · rintro ⟨_, h, rfl⟩
      exact h

end Cursor
end Descent
