import Descent.Proofs.Session.Advance
import Descent.Proofs.Session.Reading

/-!
# What holds after a success

* `Program.Ensures`: what holds of the result of a program and of the session after it.

A program that fails has no result, so nothing is ensured of it. Its requests are taken one after
the other, and each rule says from which session the rest of the program starts: an action has moved
the cursor alone, and looking has not even done that. So what a production parses comes from the
parses that it asks for (`Grammar.parse_ok`), and what a repetition finds from those of its
elements (`Grammar.series_found`, `Grammar.commaList_found`).
-/

namespace Descent

namespace Program

variable {α β : Type}

/-- Whenever a program succeeds, its result and the session after it are as `Q` says. -/
def Ensures (handle : Handler) (p : Program α) (s : Session) (Q : α → Session → Prop) : Prop :=
  ∀ ⦃a s'⦄, p.run handle s = (.ok a, s') → Q a s'

namespace Ensures

variable {handle : Handler} {s : Session} {p : Program α} {f : α → Program β}
  {Q : β → Session → Prop}

theorem done {b : β} (h : Q b s) : (Program.done (.ok b)).Ensures handle s Q := by
  rintro _ _ ⟨⟩
  exact h

/-- The rule for a sequence. -/
theorem bind (h : p.Ensures handle s fun a s' => (f a).Ensures handle s' Q) :
    (p >>= f).Ensures handle s Q := by
  intro b s' hrun
  rw [run_bind] at hrun
  rcases hp : p.run handle s with ⟨e | a, s₁⟩ <;> rw [hp] at hrun
  · cases hrun
  · exact h hp hrun

theorem mono {Q' : α → Session → Prop} (h : p.Ensures handle s Q')
    {Q : α → Session → Prop} (hQ : ∀ a s', Q' a s' → Q a s') : p.Ensures handle s Q :=
  fun a s' hrun => hQ a s' (h hrun)

/-- What holds already holds whatever a program does. -/
theorem const {P : Prop} (h : P) : p.Ensures handle s fun _ _ => P :=
  fun _ _ _ => h

/-- The rule for a request. -/
theorem request_bind {r : Request} {f : r.Answer → Program β}
    (hf : ∀ x s', handle r s = (.ok x, s') → (f x).Ensures handle s' Q) :
    (request r >>= f).Ensures handle s Q :=
  bind fun x s' hrun => hf x s' hrun

variable {g : Grammar} {levels : Nat}

theorem perform_bind {a : Cursor.Action} {f : a.Answer → Program β}
    (hf : ∀ x c, s.cursor.perform a = (.ok x, c) →
      (f x).Ensures (g.handler levels) { s with cursor := c } Q) :
    (act a >>= f).Ensures (g.handler levels) s Q := by
  refine bind fun x s' hrun => ?_
  rcases hperform : s.cursor.perform a with ⟨answer, c⟩
  obtain ⟨rfl, rfl⟩ := Prod.mk.inj ((Session.run_act hperform).symm.trans hrun)
  exact hf x c hperform

theorem act_bind {a : Cursor.Action} {f : a.Answer → Program β}
    (hf : ∀ x c, (f x).Ensures (g.handler levels) { s with cursor := c } Q) :
    (act a >>= f).Ensures (g.handler levels) s Q :=
  perform_bind fun x c _ => hf x c

/-- The rule for a pattern that has to be there. -/
theorem take_bind {q : Pattern} {span? : List Char → Option (List Char × List Char)}
    (hq : q.Spans span?) {message : Option String} {f : String → Program β}
    (hf : ∀ l rest c, span? s.cursor.ahead = some (l, rest) → c.ahead = rest →
      (f (String.ofList l)).Ensures (g.handler levels) { s with cursor := c } Q) :
    (take q message >>= f).Ensures (g.handler levels) s Q := by
  refine perform_bind fun x c htake => ?_
  have htake : s.cursor.take q message = (.ok x, c) := htake
  cases hspan : span? s.cursor.ahead with
  | none => cases (Cursor.take_of_span_none hq hspan message).symm.trans htake
  | some span =>
    obtain ⟨c', hc, hmoves⟩ := Cursor.take_of_span_some hq hspan message
    cases hc.symm.trans htake
    exact hf span.1 span.2 c hspan hmoves.ahead

theorem sees_bind {q : Pattern} {f : Bool → Program β}
    (hf : ∀ x, (f x).Ensures (g.handler levels) s Q) :
    (sees q >>= f).Ensures (g.handler levels) s Q := by
  refine bind fun x s' hrun => ?_
  obtain ⟨-, rfl⟩ := Prod.mk.inj ((Session.run_act (a := .sees q) rfl).symm.trans hrun)
  exact hf x

/-- The rule for looking for a production. -/
theorem look_bind {kind : String} {options : Options} {f : Bool → Program β}
    (hf : ∀ x, g.sees s (.production kind) options = .ok x →
      (f x).Ensures (g.handler levels) s Q) :
    (seesProduction kind options >>= f).Ensures (g.handler levels) s Q := by
  refine bind fun x s' hrun => ?_
  obtain ⟨hsees, rfl⟩ := Prod.mk.inj ((Session.run_request _).symm.trans hrun)
  exact hf x hsees

theorem seesProduction_bind {kind : String} {options : Options} {f : Bool → Program β}
    (hf : ∀ x, (f x).Ensures (g.handler levels) s Q) :
    (seesProduction kind options >>= f).Ensures (g.handler levels) s Q :=
  look_bind fun x _ => hf x

theorem state_bind {f : Session → Program β} (hf : (f s).Ensures (g.handler levels) s Q) :
    (Program.state >>= f).Ensures (g.handler levels) s Q := by
  refine bind fun x s' hrun => ?_
  cases Session.run_state.symm.trans hrun
  exact hf

/-- Going back to a node ends where the node begins. -/
theorem rewind_bind {id : NodeId} {f : Unit → Program β}
    (hf : ∀ node c, s.tree.node? id = some node → node.start = some c.offset →
      (f ()).Ensures (g.handler levels) { s with cursor := c } Q) :
    (rewind id >>= f).Ensures (g.handler levels) s Q := by
  refine bind fun x s' hrun => ?_
  have hrewind : s.rewind id = (.ok x, s') := (Session.run_request (.rewind id)).symm.trans hrun
  unfold Session.rewind at hrewind
  split at hrewind
  · cases hrewind
  next node hn =>
    split at hrewind
    · cases hrewind
    next start hstart =>
      cases hmove : s.cursor.moveTo? start with
      | none =>
        simp only [Cursor.goTo, hmove] at hrewind
        cases hrewind
      | some c =>
        simp only [Cursor.goTo, hmove] at hrewind
        cases hrewind
        obtain ⟨l, r, htext, hsize, rfl⟩ := Cursor.moveTo?_eq_some_iff.1 hmove
        refine hf node _ hn ?_
        rw [hstart, ← hsize]
        exact congrArg some (Text.size_reverse l).symm

theorem refuse (message : String) :
    (Program.fail message : Program β).Ensures (g.handler levels) s Q :=
  fun _ _ hrun => by cases (Session.run_fail message).symm.trans hrun

end Ensures
end Program

/-! ## Parses -/

/-- A node that is parsed is appended to the tree that the program of its production leaves, with
the fields that this gives. The cursor stands where that left it. -/
theorem Grammar.parse_ok {g : Grammar} {kind : String} {options : Options} {levels : Nat}
    {s s' : Session} {id : NodeId} (h : g.handler levels (.parse kind options) s = (.ok id, s')) :
    ∃ p below fields after, g.find kind = .ok p ∧ levels = below + 1 ∧
      (p.body options).run (g.handler below) { s with depth := s.depth + 1 } = (.ok fields, after) ∧
      id = ⟨after.tree.size⟩ ∧ s'.cursor = after.cursor ∧
      s'.tree = (after.tree.append p.name (some s.cursor.offset) fields).2 := by
  cases hp : g.find kind with
  | error e =>
    rw [Session.handler_eq_answer] at h
    simp only [answer, parse, hp] at h
    cases h
  | ok p =>
  rw [Session.handler_parse hp] at h
  unfold Production.parse at h
  split at h
  · cases h
  cases levels with
  | zero => cases h
  | succ below =>
    simp only [Session.inner] at h
    rcases hrun : (p.body options).run (g.handler below) { s with depth := s.depth + 1 } with
      ⟨e | fields, after⟩ <;> rw [hrun] at h
    · cases h
    by_cases hf : after.tree.Free fields.children
    · simp only [Tree.graft_of_free hf] at h
      cases h
      exact ⟨p, below, fields, after, rfl, rfl, hrun, rfl, rfl, rfl⟩
    · obtain ⟨e, he⟩ : ∃ e, after.tree.graft p.name (some s.cursor.offset) fields =
          (.error e, after.tree) := Tree.graft_of_not_free hf
      simp only [he] at h
      cases h

theorem Grammar.parse_kind {g : Grammar} {kind : String} {options : Options} {levels : Nat}
    {s s' : Session} {id : NodeId} (h : g.handler levels (.parse kind options) s = (.ok id, s')) :
    kind ∈ g.kinds := by
  obtain ⟨p, -, -, -, hp, -⟩ := parse_ok h
  exact name_eq_of_find hp ▸ name_mem_kinds_of_find hp

/-- The node begins where its parse did. -/
theorem Grammar.parse_start {g : Grammar} {kind : String} {options : Options} {levels : Nat}
    {s s' : Session} {id : NodeId} (h : g.handler levels (.parse kind options) s = (.ok id, s')) :
    ∃ node, s'.tree.node? id = some node ∧ node.kind = kind ∧
      node.start = some s.cursor.offset := by
  obtain ⟨p, below, fields, after, hp, -, -, rfl, -, htree⟩ := parse_ok h
  rw [htree, ← name_eq_of_find hp]
  exact ⟨_, Tree.node?_append_new, rfl, rfl⟩

/-! ## Repetitions

A relation between sessions and the nodes that are found from one to the other holds of a repetition
if it holds of the parse of an element. -/

/-- A relation between two sessions and what is found on the way that holds of a longer way, too,
when nothing is found on the rest of it. -/
structure Session.Widens (R : Session → List NodeId → Session → Prop) : Prop where
  earlier : ∀ {s ids s'} {c : Cursor}, s.cursor.offset ≤ c.offset →
    R { s with cursor := c } ids s' → R s ids s'
  later : ∀ {s ids s'} {c : Cursor}, s'.cursor.offset ≤ c.offset → R s ids s' →
    R s ids { s' with cursor := c }

/-- A relation between trees does not depend on the cursor. -/
theorem Session.Widens.ofTree (R : Tree → List NodeId → Tree → Prop) :
    Widens fun s ids s' => R s.tree ids s'.tree :=
  ⟨fun _ h => h, fun _ h => h⟩

section
variable {R : Session → List NodeId → Session → Prop} (hR : Session.Widens R)
include hR

namespace Grammar

variable {g : Grammar} {inner : Option Handler} {p : Production} {options : Options}
  (hparse : ∀ {s id s'}, p.parse inner options s = (.ok id, s') → R s [id] s')
  {s s' : Session} {x : Session.Round}
include hparse

theorem seriesRound_found (refl : ∀ s, R s [] s)
    (h : g.seriesRound inner p options s = (.ok x, s')) : R s x.found s' := by
  have hspace : s.cursor.offset ≤ s.spaced.cursor.offset := s.cursor.offset_le_dropSpace
  unfold seriesRound at h
  simp only at h
  rcases hsees : g.seesStart p options s.spaced with e | _ | _ <;> rw [hsees] at h
  · cases h
  · cases h
    have hback : (s.spaced.cursor.moveTo s.cursor.offset).plain = s.cursor.plain :=
      Cursor.plain_moveTo_offset s.stays_spaced.text rfl rfl
    exact hR.later (Nat.le_of_eq (Cursor.offset_of_plain hback).symm) (refl s)
  · rcases hr : p.parse inner options s.spaced with ⟨e | id, after⟩ <;> rw [hr] at h
    · cases h
    have hfound := hR.earlier hspace (hparse hr)
    simp only at h
    split at h <;> cases h
    exact hfound

theorem commaRound_found (h : g.commaRound inner p options s = (.ok x, s')) :
    R s x.found s' := by
  have hspace : s.cursor.offset ≤ s.spaced.cursor.offset := s.cursor.offset_le_dropSpace
  unfold commaRound at h
  simp only at h
  rcases hsees : g.seesStart p options s.spaced with e | _ | _ <;> rw [hsees] at h
  · cases h
  · cases h
  · rcases hr : p.parse inner options s.spaced with ⟨e | id, after⟩ <;> rw [hr] at h
    · cases h
    have hfound := hR.earlier hspace (hparse hr)
    have hcomma : after.cursor.offset ≤
        (after.cursor.dropSpace.take? (.literal ",")).2.offset :=
      Nat.le_trans after.cursor.offset_le_dropSpace
        (Cursor.offset_le_perform (a := .take? (.literal ",")) rfl after.cursor.dropSpace)
    simp only at h
    rcases htake : after.cursor.dropSpace.take? (.literal ",") with ⟨e | _ | _, cursor⟩ <;>
      rw [htake] at h hcomma <;> cases h <;> exact hR.later hcomma hfound

end Grammar

variable (trans : ∀ {s s' s'' ids ids'}, R s ids s' → R s' ids' s'' → R s (ids ++ ids') s'')
include trans

omit hR in
theorem Session.collect_found {round : Session → Outcome Session Session.Round}
    (hround : ∀ {s x s'}, round s = (.ok x, s') → R s x.found s')
    {found ids : List NodeId} {fuel : Nat} {s s' : Session}
    (h : collect round found fuel s = (.ok ids, s')) :
    ∃ new, ids = found.reverse ++ new ∧ R s new s' := by
  induction fuel generalizing found s with
  | zero => cases h
  | succ fuel ih =>
    rw [collect] at h
    rcases hr : round s with ⟨e | x, s₁⟩ <;> rw [hr] at h
    · cases h
    have hstep := hround hr
    cases x with
    | stop =>
      cases h
      exact ⟨[], (List.append_nil _).symm, hstep⟩
    | last id =>
      cases h
      exact ⟨[id], List.reverse_cons, hstep⟩
    | next id =>
      obtain ⟨new, rfl, hnew⟩ := ih h
      exact ⟨id :: new, by rw [List.reverse_cons, List.append_assoc]; rfl, trans hstep hnew⟩

namespace Grammar

variable {g : Grammar} {levels : Nat} {kind : String} {options : Options}
  (hparse : ∀ {s id s'}, g.handler levels (.parse kind options) s = (.ok id, s') → R s [id] s')
  {s s' : Session} {ids : List NodeId}
include hparse

theorem series_found (refl : ∀ s, R s [] s)
    (h : g.handler levels (.series kind options) s = (.ok ids, s')) : R s ids s' := by
  rw [Session.handler_eq_answer, answer, series] at h
  split at h
  · cases h
  next p hp =>
    have helement {s id s'} (hr : p.parse (Session.inner g levels) options s = (.ok id, s')) :
        R s [id] s' := hparse ((Session.handler_parse hp).trans hr)
    obtain ⟨new, rfl, hnew⟩ := Session.collect_found trans (seriesRound_found hR helement refl) h
    exact hnew

theorem commaList_found (h : g.handler levels (.commaList kind options) s = (.ok ids, s')) :
    R s ids s' := by
  rw [Session.handler_eq_answer, answer, commaList] at h
  split at h
  · cases h
  next p hp =>
    have helement {s id s'} (hr : p.parse (Session.inner g levels) options s = (.ok id, s')) :
        R s [id] s' := hparse ((Session.handler_parse hp).trans hr)
    obtain ⟨new, rfl, hnew⟩ := Session.collect_found trans (commaRound_found hR helement) h
    exact hnew

end Grammar
end
end Descent
