import Descent.Proofs.Session.Reading

/-!
# Failures that are about the text

* `Program.Objects`: whenever a program fails, it says what is wrong where the cursor stands.

A sequence of programs that object is one itself, and so is what asks for a pattern with a span. So
a production whose requests are of this kind fails with a message about the text, and no other way.
-/

namespace Descent.Program

variable {α β : Type}

/-- Whenever a program fails, the failure is a message about the place where it leaves the
cursor. -/
def Objects (g : Grammar) (levels : Nat) (p : Program α) : Prop :=
  ∀ ⦃s e s'⦄, p.run (g.handler levels) s = (.error e, s') →
    ∃ message, e = s'.cursor.unexpected message

variable {g : Grammar} {levels : Nat}

namespace Objects

theorem pure (a : α) : Objects g levels (Pure.pure a) :=
  nofun

/-- The rule for a sequence. -/
theorem bind {p : Program α} {f : α → Program β} (hp : p.Objects g levels)
    (hf : ∀ a, (f a).Objects g levels) : (p >>= f).Objects g levels := by
  intro s e s' hrun
  rw [run_bind] at hrun
  rcases h : p.run (g.handler levels) s with ⟨e' | a, s₁⟩ <;> rw [h] at hrun
  · cases hrun
    exact hp h
  · exact hf a hrun

/-- The rule for an action. -/
theorem act {a : Cursor.Action}
    (ha : ∀ {c c' : Cursor} {e}, c.perform a = (.error e, c') →
      ∃ message, e = c'.unexpected message) : (Program.act a).Objects g levels := by
  intro s e s' hrun
  rcases h : s.cursor.perform a with ⟨answer, c⟩
  obtain ⟨rfl, rfl⟩ := Prod.mk.inj ((Session.run_act h).symm.trans hrun)
  exact ha h

theorem fail (message : String) : (Program.fail message : Program α).Objects g levels := by
  intro s e s' hrun
  cases (Session.run_fail message).symm.trans hrun
  exact ⟨message, rfl⟩

theorem decode (hex : String) : (Program.decode hex).Objects g levels := by
  apply Objects.act
  intro c c' e h
  simp only [Cursor.perform, Cursor.decode] at h
  split at h <;> cases h
  exact ⟨_, rfl⟩

theorem state : Program.state.Objects g levels := by
  intro s e s' hrun
  cases Session.run_state.symm.trans hrun

section
variable {p : Pattern} {span? : List Char → Option (List Char × List Char)} (hs : p.Spans span?)
include hs

/-- Of a pattern with a span it can always be told whether it is there. -/
theorem take? : (Program.take? p).Objects g levels := by
  apply Objects.act
  intro c c' e h
  change c.take? p = _ at h
  rcases hspan : span? c.ahead with _ | ⟨l, r⟩
  · cases (Cursor.take?_of_span_none hs hspan).symm.trans h
  · obtain ⟨_, hc, -⟩ := Cursor.take?_of_span_some hs hspan
    cases hc.symm.trans h

theorem take (message : Option String) : (Program.take p message).Objects g levels := by
  apply Objects.act
  intro c c' e h
  change c.take p message = _ at h
  rcases hspan : span? c.ahead with _ | ⟨l, r⟩
  · cases (Cursor.take_of_span_none hs hspan message).symm.trans h
    exact ⟨_, rfl⟩
  · obtain ⟨_, hc, -⟩ := Cursor.take_of_span_some hs hspan message
    cases hc.symm.trans h

end
end Objects
end Descent.Program
