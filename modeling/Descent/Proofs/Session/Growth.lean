import Descent.Proofs.Cursor.Span
import Descent.Proofs.Tree.Ownership
import Descent.Session.Parse

/-!
# What a session does to its tree

Whatever a production asks for, the tree changes by steps only: a parse grafts the node of a
production of the grammar, and the other requests that touch the tree insert or copy. So what holds
of every step holds of every request, answered or refused, at every depth.

* `Session.Moves`: what a round of a repetition does besides its parse;
* `Session.Grows`: what every request does to the tree.
-/

namespace Descent

/-- A relation between the states before and after every request holds of every program. -/
theorem Program.run_rel {α : Type} {R : Session → Session → Prop} (refl : ∀ s, R s s)
    (trans : ∀ {s s' s''}, R s s' → R s' s'' → R s s'') {handle : Handler}
    (h : ∀ r s, R s (handle r s).2) (p : Program α) (s : Session) : R s (p.run handle s).2 := by
  induction p generalizing s with
  | done => exact refl s
  | ask request next ih => exact trans (h request s) (ih _ _)

/-- A relation between the states before and after every round holds of a repetition. -/
theorem Session.collect_rel {R : Session → Session → Prop} (refl : ∀ s, R s s)
    (trans : ∀ {s s' s''}, R s s' → R s' s'' → R s s'')
    {round : Session → Outcome Session Session.Round} (h : ∀ s, R s (round s).2)
    (found : List NodeId) (fuel : Nat) (s : Session) :
    R s (Session.collect round found fuel s).2 := by
  induction fuel generalizing found s with
  | zero => exact refl s
  | succ fuel ih =>
    have hround := h s
    unfold Session.collect
    rcases hr : round s with ⟨answer, after⟩
    rw [hr] at hround
    rcases answer with e | ⟨- | id | id⟩
    · exact hround
    · exact hround
    · exact hround
    · exact trans hround (ih _ after)

namespace Session

/-- The session after the space at its cursor. -/
abbrev spaced (s : Session) : Session :=
  { s with cursor := s.cursor.dropSpace }

/-- Nothing but the cursor has moved. -/
structure Moves (s s' : Session) : Prop where
  cursor : s.cursor.MovesTo s'.cursor.ahead s'.cursor
  tree : s'.tree = s.tree
  depth : s'.depth = s.depth

variable {s s' s'' : Session}

theorem Moves.refl (s : Session) : s.Moves s := ⟨.refl _, rfl, rfl⟩

theorem Moves.trans (h : s.Moves s') (h' : s'.Moves s'') : s.Moves s'' :=
  ⟨h.cursor.trans h'.cursor, h'.tree.trans h.tree, h'.depth.trans h.depth⟩

theorem Moves.of_movesTo {c : Cursor} (h : s.cursor.MovesTo c.ahead c) :
    s.Moves { s with cursor := c } :=
  ⟨h, rfl, rfl⟩

theorem moves_spaced (s : Session) : s.Moves s.spaced :=
  .of_movesTo (s.cursor.forward_movesTo _)

end Session

namespace Grammar

open Session (Moves)

variable (g : Grammar) (inner : Option Handler) (p : Production) (options : Options) (s : Session)

/-- A round of a series parses past the space, if at all, and then at most moves the cursor. -/
theorem seriesRound_moves :
    s.Moves (g.seriesRound inner p options s).2 ∨
      Moves (p.parse inner options s.spaced).2 (g.seriesRound inner p options s).2 := by
  unfold seriesRound
  simp only
  rcases g.seesStart p options s.spaced with e | _ | _
  · exact .inl s.moves_spaced
  · exact .inl (s.moves_spaced.trans (.of_movesTo (s.spaced.cursor.moveTo_movesTo _)))
  · refine .inr ?_
    rcases p.parse inner options s.spaced with ⟨e | id, after⟩
    · exact .refl after
    · simp only
      split <;> exact .refl after

/-- A round of a comma-separated list does so, too. -/
theorem commaRound_moves :
    s.Moves (g.commaRound inner p options s).2 ∨
      Moves (p.parse inner options s.spaced).2 (g.commaRound inner p options s).2 := by
  unfold commaRound
  simp only
  rcases g.seesStart p options s.spaced with e | _ | _
  · exact .inl s.moves_spaced
  · exact .inl s.moves_spaced
  · refine .inr ?_
    rcases p.parse inner options s.spaced with ⟨e | id, after⟩
    · exact .refl after
    · have hcomma := after.cursor.dropSpace.take?_movesTo (.literal ",")
      have hmoves := after.moves_spaced.trans (.of_movesTo hcomma)
      simp only
      rcases ht : after.cursor.dropSpace.take? (.literal ",") with ⟨e | _ | _, cursor⟩ <;>
        rw [ht] at hmoves <;> exact hmoves

end Grammar

namespace Session

/-- The tree of a session over a grammar grows by steps, if it keeps the ownership invariant. -/
def Grows (g : Grammar) (s s' : Session) : Prop :=
  s.tree.Owned → s.tree.kinds = g.kinds → Tree.Steps s.tree s'.tree

variable {g : Grammar} {s s' s'' : Session}

theorem Grows.of_tree_eq (h : s'.tree = s.tree) : Grows g s s' :=
  fun _ _ => h ▸ .refl _

theorem Grows.moves (h : Grows g s s') (hm : s'.Moves s'') : Grows g s s'' :=
  fun ho hk => hm.tree ▸ h ho hk

theorem Grows.trans (h : Grows g s s') (h' : Grows g s' s'') : Grows g s s'' := by
  intro ho hk
  have hsteps := h ho hk
  obtain ⟨ho', hk'⟩ := hsteps.owned ho
  exact hsteps.trans (h' ho' (hk'.trans hk))

end Session

namespace Grammar

open Session (Grows)

variable {g : Grammar}

theorem name_mem_kinds_of_find {kind : String} {p : Production} (h : g.find kind = .ok p) :
    p.name ∈ g.kinds := by
  unfold find at h
  split at h
  next q hq =>
    cases h
    exact List.mem_map_of_mem (List.mem_of_find?_eq_some hq)
  next => cases h

theorem grows_parse_production {p : Production} (hp : p.name ∈ g.kinds) {inner : Option Handler}
    (h : ∀ handle ∈ inner, ∀ r s, Grows g s (handle r s).2) (options : Options) (s : Session) :
    Grows g s (p.parse inner options s).2 := by
  unfold Production.parse
  split
  · exact .of_tree_eq rfl
  · cases inner with
    | none => exact .of_tree_eq rfl
    | some handle =>
      have hbody := Program.run_rel (R := Grows g) (fun _ => .of_tree_eq rfl) Grows.trans
        (h handle rfl) (p.body options) { s with depth := s.depth + 1 }
      simp only
      rcases hr : (p.body options).run handle { s with depth := s.depth + 1 } with ⟨answer, after⟩
      rw [hr] at hbody
      rcases answer with e | fields
      · exact hbody
      · intro ho hk
        have hsteps := hbody ho hk
        obtain ⟨-, hk'⟩ := hsteps.owned ho
        have hmem : p.name ∈ after.tree.kinds := by rw [hk', hk]; exact hp
        exact hsteps.trans (Tree.graft_steps hmem)

section
variable {inner : Option Handler} (h : ∀ handle ∈ inner, ∀ r s, Grows g s (handle r s).2)
include h

theorem grows_seriesRound {p : Production} (hp : p.name ∈ g.kinds) (options : Options)
    (s : Session) : Grows g s (g.seriesRound inner p options s).2 := by
  have hparse : Grows g s (p.parse inner options s.spaced).2 :=
    grows_parse_production hp h options s.spaced
  rcases g.seriesRound_moves inner p options s with hm | hm
  · exact .of_tree_eq hm.tree
  · exact hparse.moves hm

theorem grows_commaRound {p : Production} (hp : p.name ∈ g.kinds) (options : Options)
    (s : Session) : Grows g s (g.commaRound inner p options s).2 := by
  have hparse : Grows g s (p.parse inner options s.spaced).2 :=
    grows_parse_production hp h options s.spaced
  rcases g.commaRound_moves inner p options s with hm | hm
  · exact .of_tree_eq hm.tree
  · exact hparse.moves hm

theorem grows_answer (r : Request) (s : Session) : Grows g s (g.answer inner r s).2 := by
  cases r with
  | act | sees | write | state => exact .of_tree_eq rfl
  | parse kind options =>
    simp only [answer, parse]
    split
    · exact .of_tree_eq rfl
    next p hp => exact grows_parse_production (name_mem_kinds_of_find hp) h options s
  | series kind options =>
    simp only [answer, series]
    split
    · exact .of_tree_eq rfl
    next p hp =>
      exact Session.collect_rel (R := Grows g) (fun _ => .of_tree_eq rfl) Grows.trans
        (grows_seriesRound h (name_mem_kinds_of_find hp) options) _ _ s
  | commaList kind options =>
    simp only [answer, commaList]
    split
    · exact .of_tree_eq rfl
    next p hp =>
      exact Session.collect_rel (R := Grows g) (fun _ => .of_tree_eq rfl) Grows.trans
        (grows_commaRound h (name_mem_kinds_of_find hp) options) _ _ s
  | rewind id =>
    simp only [answer, Session.rewind]
    split
    · exact .of_tree_eq rfl
    · split <;> exact .of_tree_eq rfl
  | insert kind fields => exact fun _ _ => Tree.insert_steps
  | copy id => exact fun _ _ => Tree.copy_steps

end

theorem grows_handler (levels : Nat) (r : Request) (s : Session) :
    Grows g s (g.handler levels r s).2 := by
  induction levels generalizing r s with
  | zero => exact grows_answer (fun _ h => by cases h) r s
  | succ levels ih =>
    refine grows_answer ?_ r s
    rintro _ ⟨⟩
    exact ih

end Grammar

theorem Session.grows_handle (g : Grammar) (r : Request) (s : Session) :
    Grows g s (s.handle g r).2 :=
  g.grows_handler _ r s

end Descent
