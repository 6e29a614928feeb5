import Descent.Proofs.Session.Faults
import Descent.Proofs.Session.Forward

/-!
# Failures over a local grammar

* `Grammar.Fails`: the failures that the requests of local programs can end with;
* `Grammar.FailsAll`: a handler with no other failures.

A local program fails as one of its requests does, so these are all failures that there are
(`failsAll_handler`). None is that a repetition was given up (`Fails.ne_endless`), and an element
ends where it began only if its production does not consume text (`Fails.ne_idle`).
-/

namespace Descent

/-! ## Causes -/

/-- The message about an element of a series that ended where it began. -/
def Grammar.idleMessage (kind : String) : String :=
  s!"{kind} matched without consuming input inside a chain"

/-- The failures of requests over a local grammar. Those about the state of the session are listed
by their messages. -/
inductive Grammar.Fails (g : Grammar) : Failure → Prop
  | unexpected (d : Diagnostic) : Fails g (.unexpected d)
  | badArgument (message : String) : Fails g (.badArgument message)
  | tooDeep (depth maxDepth : Nat) (d : Diagnostic) : Fails g (.tooDeep depth maxDepth d)
  | circular (kind : String) : Fails g (.badState s!"{kind} is recognized through itself")
  | owned (kind : String) (index : Nat) :
    Fails g (.badState s!"{kind} node #{index} already has a parent")
  | placeless (kind : String) : Fails g (.badState s!"cannot detect position of {kind} node")
  /-- The one failure that says something about a production: it does not consume text. -/
  | idle {kind : String} : ¬g.Consumes kind → Fails g (.badState (idleMessage kind))

variable {g : Grammar} {α : Type}

/-- The messages by which they are listed end with different letters. -/
theorem Grammar.Fails.message {message : String} (h : g.Fails (.badState message)) :
    (∃ kind, message = idleMessage kind ∧ ¬g.Consumes kind) ∨
      ∃ c ∈ ['f', 't', 'e'], message.toList.getLast? = some c := by
  cases h with
  | circular kind => exact .inr ⟨'f', by simp, by simp [toString]⟩
  | owned kind index =>
    exact .inr ⟨'t', by simp, by simp [toString, List.getLast?_cons, List.getLast?_append]⟩
  | placeless kind =>
    exact .inr ⟨'e', by simp, by simp [toString, List.getLast?_cons, List.getLast?_append]⟩
  | idle hkind => exact .inl ⟨_, rfl, hkind⟩

/-- A production that consumes text is not found to be idle. -/
theorem Grammar.Fails.ne_idle {e : Failure} (h : g.Fails e) {kind : String}
    (hkind : g.Consumes kind) : e ≠ .badState (idleMessage kind) := by
  rintro rfl
  obtain ⟨kind', hsame, hidle⟩ | ⟨c, hc, hlast⟩ := h.message
  · simp only [idleMessage, toString, String.append_left_inj] at hsame
    exact hidle (hsame ▸ hkind)
  · have hn : (idleMessage kind).toList.getLast? = some 'n' := by simp [idleMessage, toString]
    cases hn.symm.trans hlast
    simp at hc

/-- No repetition is given up. -/
theorem Grammar.Fails.ne_endless {e : Failure} (h : g.Fails e) :
    e ≠ .badState "a repetition does not end" := by
  rintro rfl
  obtain ⟨kind', hsame, -⟩ | ⟨c, hc, hlast⟩ := h.message
  · have hn : (idleMessage kind').toList.getLast? = some 'n' := by simp [idleMessage, toString]
    rw [← hsame] at hn
    simp at hn
  · simp at hlast
    simp [← hlast] at hc

/-! ## Cursors and trees -/

theorem Cursor.Refuses.fails {c : Cursor} {a : Cursor.Action} {e : Failure} (h : c.Refuses a e)
    (ha : a.isLocal) : g.Fails e := by
  cases h with
  | unexpected message => exact .unexpected _
  | badArgument message => exact .badArgument message
  | noMark message => cases ha

theorem Tree.Denies.fails {e : Failure} (h : Tree.Denies e) : g.Fails e := by
  cases h with
  | badArgument message => exact .badArgument message
  | owned kind index => exact .owned kind index

theorem Grammar.Obscures.fails {e : Failure} (h : Grammar.Obscures e) : g.Fails e := by
  cases h with
  | badArgument message => exact .badArgument message
  | circular kind => exact .circular kind

theorem Session.fails_rewind {s : Session} {id : NodeId} {e : Failure}
    (h : (s.rewind id).1 = .error e) : g.Fails e := by
  rcases rewind_error h with ⟨message, rfl⟩ | ⟨kind, rfl⟩
  · exact .badArgument message
  · exact .placeless kind

/-! ## Requests -/

/-- A handler fails in no other way when it is asked as local programs ask. -/
def Grammar.FailsAll (g : Grammar) (handle : Handler) : Prop :=
  ∀ ⦃d ids r r' A s e⦄, Request.Corresponds d ids r r' A → (handle r s).1 = .error e → g.Fails e

/-- A local program passes on what fails. -/
theorem Program.Local.fails {handle : Handler} (hh : g.FailsAll handle) {d : Nat}
    {Q : List NodeId → α → α → Prop} {ids : List NodeId} {p p' : Program α}
    (hp : p.Local d Q ids p') {s : Session} {e : Failure} (h : (p.run handle s).1 = .error e) :
    g.Fails e := by
  obtain ⟨ids, r, r', A, s₁, hr, hs₁⟩ := hp.exists_refused (Prod.ext h rfl)
  exact hh hr (congrArg Prod.fst hs₁)

/-- A repetition that ends by itself fails in a round. -/
theorem Session.Ends.fails {round : Session → Outcome Session Round} {s : Session}
    {o : Outcome Session (List NodeId)} (h : Ends round s o)
    (hround : ∀ {s e}, (round s).1 = .error e → g.Fails e) {e : Failure} (he : o.1 = .error e) :
    g.Fails e := by
  cases h with
  | stop | last => cases he
  | fail _ hfail =>
    cases he
    exact hround (congrArg Prod.fst hfail)

namespace Grammar

open Session

variable {p : Production} {options : Options} {s : Session} {e : Failure} {kind : String}

section
variable {levels : Nat} (hg : ∀ p ∈ g.productions, p.Local)
  (hi : ∀ handle ∈ inner g levels, g.FailsAll handle)
include hg hi

theorem fails_parse (hp : g.find kind = .ok p)
    (h : (p.parse (inner g levels) options s).1 = .error e) : g.Fails e := by
  rcases p.parse_error (Prod.ext h rfl) with
    ⟨-, rfl, -⟩ | ⟨handle, after, -, hhandle, -, hrun | hdenies⟩
  · exact .tooDeep _ _ _
  · have hbody := (hg p (mem_of_find hp)).body 0 options
    exact hbody.fails (hi handle hhandle) (congrArg Prod.fst hrun)
  · exact hdenies.fails

theorem fails_seriesRound (hp : g.find kind = .ok p)
    (h : (g.seriesRound (inner g levels) p options s).1 = .error e) : g.Fails e := by
  rcases seriesRound_error (Prod.ext h rfl) with
    ⟨hsees, -⟩ | ⟨-, hparse | ⟨id, hparse, hidle, rfl⟩⟩
  · exact (seesStart_error hg (mem_of_find hp) hsees).fails
  · exact fails_parse hg hi hp (congrArg Prod.fst hparse)
  · rw [name_eq_of_find hp]
    refine .idle fun hconsumes => ?_
    have hlt := hconsumes ((handler_parse hp).trans hparse)
    exact absurd hidle (Nat.ne_of_gt hlt)

theorem fails_commaRound (hp : g.find kind = .ok p)
    (h : (g.commaRound (inner g levels) p options s).1 = .error e) : g.Fails e := by
  rcases commaRound_error (Prod.ext h rfl) with ⟨-, hsees | rfl⟩ | ⟨-, hparse⟩
  · exact (seesStart_error hg (mem_of_find hp) hsees).fails
  · exact .unexpected _
  · exact fails_parse hg hi hp (congrArg Prod.fst hparse)

theorem failsAll_of_inner : g.FailsAll (g.handler levels) := by
  intro d ids r r' A s e hr h
  rw [handler_eq_answer] at h
  cases hr with
  | act ha => exact (Cursor.perform_error (Prod.ext h rfl)).2.fails ha
  | sees q options => exact (seesWithin_error hg h).fails
  | rewind => exact fails_rewind h
  | state => cases h
  | parse kind options =>
    rcases parse_error (Prod.ext h rfl) with ⟨message, rfl⟩ | ⟨p, hp, hparse⟩
    · exact .badArgument message
    · exact fails_parse hg hi hp (congrArg Prod.fst hparse)
  | series kind options =>
    rcases series_error (Prod.ext h rfl) with ⟨message, rfl⟩ | ⟨p, hp, -⟩
    · exact .badArgument message
    · rw [← handler_eq_answer] at h
      exact (ends_seriesRound hg hp options s).fails (fails_seriesRound hg hi hp) h
  | commaList kind options =>
    rcases commaList_error (Prod.ext h rfl) with ⟨message, rfl⟩ | ⟨p, hp, -⟩
    · exact .badArgument message
    · rw [← handler_eq_answer] at h
      exact (ends_commaRound hg hp options s).fails (fails_commaRound hg hi hp) h

end

/-- The requests of local programs fail in no other way. -/
theorem failsAll_handler (hg : ∀ p ∈ g.productions, p.Local) (levels : Nat) :
    g.FailsAll (g.handler levels) := by
  induction levels with
  | zero => exact failsAll_of_inner hg nofun
  | succ levels ih =>
    refine failsAll_of_inner hg ?_
    rintro _ ⟨⟩
    exact ih

end Grammar
end Descent
