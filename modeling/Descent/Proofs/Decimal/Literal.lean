import Descent.Decimal.Basic
import Descent.Proofs.Text.Digit
import Mathlib.Data.List.TakeWhile

/-!
# Decimal literals

A literal that can be read has no characters but digits, signs, a point and the letter of an
exponent; and digits with a point among them read as what they denote.
-/

namespace Descent.Decimal

variable {cs l r : List Char} {c : Char}

/-- The characters of decimal literals. -/
def LiteralChar (c : Char) : Prop :=
  c.isDigit ∨ c = '-' ∨ c = '+' ∨ c = '.' ∨ c = 'e' ∨ c = 'E'

private theorem mem_of_takeSign (h : ∀ c ∈ (takeSign cs).2, LiteralChar c) :
    ∀ c ∈ cs, LiteralChar c := by
  unfold takeSign at h
  split at h
  next cs =>
    rintro c (_ | ⟨_, hc⟩)
    · exact .inr (.inl rfl)
    · exact h c hc
  next cs =>
    rintro c (_ | ⟨_, hc⟩)
    · exact .inr (.inr (.inl rfl))
    · exact h c hc
  next => exact h

private theorem mem_of_readExponent? {e : Int} (h : readExponent? cs = some e) :
    ∀ c ∈ cs, LiteralChar c := by
  unfold readExponent? at h
  split at h
  · nofun
  next d cs =>
    split at h
    next hd =>
      obtain ⟨e, he, -⟩ := Option.map_eq_some_iff.1 h
      obtain ⟨n, hn, -⟩ := Option.bind_eq_some_iff.1 he
      rintro c (_ | ⟨_, hc⟩)
      · exact .inr (.inr (.inr (.inr hd)))
      · exact mem_of_takeSign (fun c hc => .inl (Text.isDigit_of_decimal? hn hc)) c hc
    next => cases h

private theorem mem_of_dropWhile (p : Char → Bool) (hp : ∀ c, p c → LiteralChar c)
    (h : ∀ c ∈ cs.dropWhile p, LiteralChar c) : ∀ c ∈ cs, LiteralChar c := by
  intro c hc
  rw [← List.takeWhile_append_dropWhile (p := p) (l := cs)] at hc
  rcases List.mem_append.1 hc with hc | hc
  · exact hp c (List.mem_takeWhile_imp hc)
  · exact h c hc

/-- What is left behind the digits is an exponent. -/
private theorem mem_of_exponent {p : Prop} [Decidable p] {f : Int → Option Decimal} {d : Decimal}
    (h : (if p then none else (readExponent? cs).bind f) = some d) : ∀ c ∈ cs, LiteralChar c := by
  split at h
  · cases h
  · obtain ⟨e, he, -⟩ := Option.bind_eq_some_iff.1 h
    exact mem_of_readExponent? he

theorem mem_of_read? {d : Decimal} (h : read? cs = some d) : ∀ c ∈ cs, LiteralChar c := by
  have hdigit : ∀ c, (Text.digit? c).isSome → LiteralChar c := by
    intro c hc
    rw [Text.isSome_digit?] at hc
    exact .inl hc
  refine mem_of_takeSign (mem_of_dropWhile _ hdigit ?_)
  simp only [read?] at h
  split at h
  next tail hpoint =>
    rw [hpoint]
    rintro c (_ | ⟨_, hc⟩)
    · exact .inr (.inr (.inr (.inl rfl)))
    · exact mem_of_dropWhile _ hdigit (mem_of_exponent h) c hc
  next => exact mem_of_exponent h

end Descent.Decimal
