import Descent.Proofs.Program.Local
import Descent.Proofs.Session.Progress

/-!
# What failures stem from

Of each operation that can fail it is said what its failure is then, and what it leaves. Failures
are made in a few places only: by a cursor, about its place (`Cursor.perform_error`), by a tree that
denies a parent its children (`Tree.childFault?_error`), by a parse that has no level left
(`Production.parse_error`), and by a repetition. Everything else passes them on.
-/

namespace Descent

variable {e : Failure}

theorem Pattern.extent?_error {p : Pattern} {cs : List Char} (h : p.extent? cs = .error e) :
    ∃ message, e = .badArgument message := by
  cases p <;> cases h
  exact ⟨_, rfl⟩

/-! ## Cursors -/

namespace Cursor

variable {c c' : Cursor} {p : Pattern} {a : Action}

theorem sees_error (h : c.sees p = .error e) : ∃ message, e = .badArgument message := by
  unfold sees at h
  rcases hextent : p.extent? c.ahead with e' | _ <;> rw [hextent] at h <;> cases h
  exact Pattern.extent?_error hextent

theorem take?_error (h : c.take? p = (.error e, c')) :
    c' = c ∧ ∃ message, e = .badArgument message := by
  unfold take? at h
  rcases hextent : p.extent? c.ahead with e' | _ | n <;> rw [hextent] at h <;> cases h
  exact ⟨rfl, Pattern.extent?_error hextent⟩

theorem take?_none (h : c.take? p = (.ok none, c')) : c' = c := by
  unfold take? at h
  rcases hextent : p.extent? c.ahead with e' | _ | n <;> rw [hextent] at h <;> cases h
  rfl

/-- The failures of an action at a cursor: that the text is not what it has to be there, that the
argument is bad, or that there is no place to go back to. -/
inductive Refuses (c : Cursor) : Action → Failure → Prop
  | unexpected {a : Action} (message : String) : Refuses c a (c.unexpected message)
  | badArgument {a : Action} (message : String) : Refuses c a (.badArgument message)
  | noMark (message : String) : Refuses c .goToMark (.badState message)

/-- An action that fails leaves the cursor where it was. -/
theorem perform_error (h : c.perform a = (.error e, c')) :
    c'.plain = c.plain ∧ c.Refuses a e := by
  cases a with
  | next | takeChar | takeChars | takeWhile | dropSpace | setMark | seesWord | takeWord | position
    | diagnostic => cases h
  | goTo offset =>
    rw [perform, goTo] at h
    split at h <;> cases h
    exact ⟨rfl, .badArgument _⟩
  | goToMark =>
    rw [perform, goToMark] at h
    split at h <;> cases h
    exact ⟨rfl, .noMark _⟩
  | sees p =>
    obtain ⟨hsees, rfl⟩ := Prod.mk.inj h
    obtain ⟨message, rfl⟩ := sees_error hsees
    exact ⟨rfl, .badArgument message⟩
  | take? p =>
    obtain ⟨rfl, message, rfl⟩ := take?_error h
    exact ⟨rfl, .badArgument message⟩
  | take p message =>
    rw [perform, take] at h
    rcases ht : c.take? p with ⟨e' | _ | matched, after⟩ <;> rw [ht] at h <;> cases h
    · obtain ⟨rfl, message, rfl⟩ := take?_error ht
      exact ⟨rfl, .badArgument message⟩
    · obtain rfl := take?_none ht
      exact ⟨rfl, .unexpected _⟩
  | takeThisWord expected =>
    have hplain := takeThisWord_plain c expected
    have htake : c.takeThisWord expected = (.error e, c') := h
    rw [htake, Plain.perform] at hplain
    split at hplain
    · cases hplain
    next message _ =>
      obtain ⟨hanswer, hafter⟩ := Prod.mk.inj hplain
      have hmessage : c.unexpected message = c.plain.cursor.unexpected message :=
        unexpected_congr rfl message
      cases hanswer
      exact ⟨hafter.symm, hmessage ▸ .unexpected message⟩
  | decode hex =>
    rw [perform, decode] at h
    split at h <;> cases h
    exact ⟨rfl, .unexpected _⟩
  | window count =>
    rw [perform, window] at h
    split at h <;> cases h
    exact ⟨rfl, .badArgument _⟩
  | fail message =>
    cases h
    exact ⟨rfl, .unexpected message⟩

end Cursor

/-! ## Trees -/

namespace Tree

variable {t t' : Tree} {id : NodeId} {kind : String} {fields : Fields}

/-- The failures of a tree that denies a parent its children: there is no such node, or it has a
parent. -/
inductive Denies : Failure → Prop
  | badArgument (message : String) : Denies (.badArgument message)
  | owned (kind : String) (index : Nat) :
    Denies (.badState s!"{kind} node #{index} already has a parent")

theorem childFault?_error {seen ids : List NodeId} (h : t.childFault? seen ids = some e) :
    Denies e := by
  induction ids generalizing seen with
  | nil => cases h
  | cons id rest ih =>
    unfold childFault? at h
    split at h
    · cases h
      exact .badArgument _
    · split at h
      · cases h
        exact .owned _ _
      · exact ih h

theorem graft_error {start : Option Nat} (h : t.graft kind start fields = (.error e, t')) :
    t' = t ∧ Denies e := by
  unfold graft at h
  split at h <;> cases h
  next hfault => exact ⟨rfl, childFault?_error hfault⟩

theorem insert_error (h : (t.insert kind fields).1 = .error e) : Denies e := by
  unfold insert at h
  split at h
  · exact (graft_error (Prod.ext h rfl)).2
  · cases h
    exact .badArgument _

theorem copy_error (h : (t.copy id).1 = .error e) : Denies e := by
  unfold copy at h
  split at h <;> cases h
  exact .badArgument _

end Tree

/-! ## Sessions -/

theorem Session.rewind_error {s : Session} {id : NodeId} (h : (s.rewind id).1 = .error e) :
    (∃ message, e = .badArgument message) ∨
      ∃ kind : String, e = .badState s!"cannot detect position of {kind} node" := by
  unfold rewind at h
  split at h
  · cases h
    exact .inl ⟨_, rfl⟩
  · split at h
    · cases h
      exact .inr ⟨_, rfl⟩
    · simp only [Cursor.goTo] at h
      split at h <;> cases h
      exact .inl ⟨_, rfl⟩

/-- A repetition that fails does so in one of its rounds, unless it does not end. -/
theorem Session.collect_error {round : Session → Outcome Session Session.Round}
    {found : List NodeId} {fuel : Nat} {s s' : Session}
    (h : collect round found fuel s = (.error e, s')) :
    e = .badState "a repetition does not end" ∨
      ∃ s₁, Turns round fuel s s₁ ∧ round s₁ = (.error e, s') := by
  induction fuel generalizing found s with
  | zero =>
    cases h
    exact .inl rfl
  | succ fuel ih =>
    rw [collect] at h
    rcases hround : round s with ⟨e' | _ | id | id, after⟩ <;> rw [hround] at h
    · cases h
      exact .inr ⟨s, .first, hround⟩
    · cases h
    · cases h
    · rcases ih h with rfl | ⟨s₁, hturns, hs₁⟩
      · exact .inl rfl
      · exact .inr ⟨s₁, .later hround hturns, hs₁⟩

/-- A local program fails as one of its requests does. -/
theorem Program.Local.exists_refused {α : Type} {handle : Handler} {d : Nat}
    {Q : List NodeId → α → α → Prop} {ids : List NodeId} {p p' : Program α}
    (hp : p.Local d Q ids p') {s s' : Session} (h : p.run handle s = (.error e, s')) :
    ∃ ids r r' A s₁, Request.Corresponds d ids r r' A ∧ handle r s₁ = (.error e, s') := by
  induction hp generalizing s with
  | done => cases h
  | @ask ids r r' A next next' hr he _ _ ih =>
    rw [run] at h
    rcases hanswer : handle r s with ⟨e' | x, after⟩ <;> rw [hanswer] at h
    · simp only [he] at h
      cases h
      exact ⟨ids, r, r', A, s, hr, hanswer⟩
    · obtain ⟨x', new, hx⟩ := hr.exists_answer x
      exact ih hx h

/-! ## Parses -/

variable {g : Grammar} {inner : Option Handler} {p : Production} {options : Options}
  {s s' : Session}

theorem Grammar.find_error {kind : String} (h : g.find kind = .error e) :
    ∃ message, e = .badArgument message := by
  unfold find at h
  split at h <;> cases h
  exact ⟨_, rfl⟩

/-- Looking for a pattern fails if it names no production, or one that cannot be recognized. -/
inductive Grammar.Obscures : Failure → Prop
  | badArgument (message : String) : Obscures (.badArgument message)
  | circular (kind : String) : Obscures (.badState s!"{kind} is recognized through itself")

theorem Cursor.obscures_of_sees {c : Cursor} {q : Pattern} (h : c.sees q = .error e) :
    Grammar.Obscures e := by
  obtain ⟨message, rfl⟩ := sees_error h
  exact .badArgument message

/-- What holds of the failures of a grammar, and of those that its productions do not have from
looking for others, holds of all failures of looking. -/
theorem Grammar.seesWithin_induct {P : Failure → Prop} (hbase : ∀ {e}, Obscures e → P e)
    (hstep : ∀ {p sees options e}, p ∈ g.productions → p.starts sees s options = .error e →
      P e ∨ ∃ q options', sees q options' = .error e)
    {fuel : Nat} {q : Pattern} (h : g.seesWithin s fuel q options = .error e) : P e := by
  induction fuel generalizing q options with
  | zero =>
    cases q with
    | literal | regex => exact hbase (Cursor.obscures_of_sees h)
    | production kind =>
      rw [seesWithin] at h
      cases hp : g.find kind with
      | error e' =>
        rw [hp] at h
        cases h
        obtain ⟨message, rfl⟩ := find_error hp
        exact hbase (.badArgument message)
      | ok p =>
        rw [hp] at h
        cases h
        exact hbase (.circular _)
  | succ fuel ih =>
    cases q with
    | literal | regex => exact hbase (Cursor.obscures_of_sees h)
    | production kind =>
      rw [seesWithin] at h
      cases hp : g.find kind with
      | error e' =>
        rw [hp] at h
        cases h
        obtain ⟨message, rfl⟩ := find_error hp
        exact hbase (.badArgument message)
      | ok p =>
        rw [hp] at h
        rcases hstep (mem_of_find hp) h with he | ⟨q, options', hq⟩
        · exact he
        · exact ih hq

section
variable (hg : ∀ p ∈ g.productions, p.Local)
include hg

theorem Grammar.seesWithin_error {fuel : Nat} {q : Pattern}
    (h : g.seesWithin s fuel q options = .error e) : Obscures e := by
  refine seesWithin_induct id (fun hp h => ?_) h
  rcases (hg _ hp).starts_error h with ⟨q, hq⟩ | hsees
  · exact .inl (Cursor.obscures_of_sees hq)
  · exact .inr hsees

theorem Grammar.seesStart_error (hp : p ∈ g.productions)
    (h : g.seesStart p options s = .error e) : Obscures e := by
  rcases (hg p hp).starts_error h with ⟨q, hq⟩ | ⟨q, options', hq⟩
  · exact Cursor.obscures_of_sees hq
  · exact seesWithin_error hg hq

end

/-- A parse fails because there is no level left, because its program does, or because the tree
denies its node a child. -/
theorem Production.parse_error (h : p.parse inner options s = (.error e, s')) :
    ((s.cursor.settings.maxDepth ≤ s.depth ∨ inner = none) ∧ e = s.tooDeep ∧ s' = s) ∨
      ∃ handle after, s.depth < s.cursor.settings.maxDepth ∧ inner = some handle ∧
        s' = { after with depth := after.depth - 1 } ∧
        ((p.body options).run handle { s with depth := s.depth + 1 } = (.error e, after) ∨
          Tree.Denies e) := by
  unfold Production.parse at h
  split at h
  next hfull =>
    cases h
    exact .inl ⟨.inl hfull, rfl, rfl⟩
  next hroom =>
    split at h
    · cases h
      exact .inl ⟨.inr rfl, rfl, rfl⟩
    next handle =>
      rcases hrun : (p.body options).run handle { s with depth := s.depth + 1 } with
        ⟨e' | fields, after⟩ <;> rw [hrun] at h
      · cases h
        exact .inr ⟨handle, after, Nat.lt_of_not_le hroom, rfl, rfl, .inl hrun⟩
      · rcases hgraft : after.tree.graft p.name (some s.cursor.offset) fields with ⟨answer, tree⟩
        simp only [hgraft] at h
        obtain ⟨rfl, rfl⟩ := Prod.mk.inj h
        obtain ⟨rfl, hdenies⟩ := Tree.graft_error hgraft
        exact .inr ⟨handle, after, Nat.lt_of_not_le hroom, rfl, rfl, .inr hdenies⟩

namespace Grammar

/-- A round of a series fails because it cannot be told whether there is an element, because the
element does, or because it ends where it began. -/
theorem seriesRound_error (h : g.seriesRound inner p options s = (.error e, s')) :
    g.seesStart p options s.spaced = .error e ∧ s' = s.spaced ∨
    g.seesStart p options s.spaced = .ok true ∧
      (p.parse inner options s.spaced = (.error e, s') ∨
        ∃ id, p.parse inner options s.spaced = (.ok id, s') ∧
          s'.cursor.offset = s.spaced.cursor.offset ∧
          e = .badState s!"{p.name} matched without consuming input inside a chain") := by
  unfold seriesRound at h
  simp only at h
  rcases hsees : g.seesStart p options s.spaced with e' | _ | _ <;> rw [hsees] at h
  · cases h
    exact .inl ⟨rfl, rfl⟩
  · cases h
  · refine .inr ⟨rfl, ?_⟩
    rcases hparse : p.parse inner options s.spaced with ⟨e' | id, after⟩ <;> rw [hparse] at h
    · cases h
      exact .inl rfl
    · simp only at h
      split at h <;> cases h
      next hidle => exact .inr ⟨id, rfl, hidle, rfl⟩

/-- A round of a list fails because it cannot be told whether there is an element, because there is
none, or because the element does. A comma is always told from what is not one. -/
theorem commaRound_error (h : g.commaRound inner p options s = (.error e, s')) :
    s' = s.spaced ∧ (g.seesStart p options s.spaced = .error e ∨
      e = s.spaced.cursor.unexpected s!"expected: {p.name}") ∨
    g.seesStart p options s.spaced = .ok true ∧
      p.parse inner options s.spaced = (.error e, s') := by
  unfold commaRound at h
  simp only at h
  rcases hsees : g.seesStart p options s.spaced with e' | _ | _ <;> rw [hsees] at h
  · cases h
    exact .inl ⟨rfl, .inl rfl⟩
  · cases h
    exact .inl ⟨rfl, .inr rfl⟩
  · refine .inr ⟨rfl, ?_⟩
    rcases hparse : p.parse inner options s.spaced with ⟨e' | id, after⟩ <;> rw [hparse] at h
    · cases h
      rfl
    · simp only at h
      cases hcomma : literalSpan? "," after.cursor.dropSpace.ahead with
      | none =>
        rw [Cursor.take?_of_span_none (spans_literal ",") hcomma] at h
        cases h
      | some span =>
        obtain ⟨c, htake, -⟩ := Cursor.take?_of_span_some (spans_literal ",") hcomma
        rw [htake] at h
        cases h

/-! ## Requests to parse -/

variable {kind : String}

theorem parse_error (h : g.parse inner kind options s = (.error e, s')) :
    (∃ message, e = .badArgument message) ∨
      ∃ p, g.find kind = .ok p ∧ p.parse inner options s = (.error e, s') := by
  unfold parse at h
  split at h
  next e' hp =>
    cases h
    exact .inl (find_error hp)
  next p hp => exact .inr ⟨p, hp, h⟩

theorem series_error (h : g.series inner kind options s = (.error e, s')) :
    (∃ message, e = .badArgument message) ∨
      ∃ p, g.find kind = .ok p ∧
        Session.collectAll (g.seriesRound inner p options) s = (.error e, s') := by
  unfold series at h
  split at h
  next e' hp =>
    cases h
    exact .inl (find_error hp)
  next p hp => exact .inr ⟨p, hp, h⟩

theorem commaList_error (h : g.commaList inner kind options s = (.error e, s')) :
    (∃ message, e = .badArgument message) ∨
      ∃ p, g.find kind = .ok p ∧
        Session.collectAll (g.commaRound inner p options) s = (.error e, s') := by
  unfold commaList at h
  split at h
  next e' hp =>
    cases h
    exact .inl (find_error hp)
  next p hp => exact .inr ⟨p, hp, h⟩

end Grammar
end Descent
