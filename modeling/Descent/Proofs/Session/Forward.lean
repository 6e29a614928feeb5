import Descent.Proofs.Cursor.Prediction
import Descent.Proofs.Session.Rounds
import Descent.Proofs.Session.Words

/-!
# Sessions that move on

* `Request.isLocal`: the requests that depend on where a session stands by what is ahead alone;
* `Pattern.Consumes`, `Cursor.Action.Consumes`: patterns and actions that succeed on some text only;
* `Grammar.Consumes`: productions whose parses succeed on some text only.

Over a local grammar no local request ends in front of where it began, whatever it comes to
(`offset_le_handler`). So a production consumes text as soon as one of its requests does, unless it
goes back to a node (`consumes_of_body`), and repetitions end by themselves (`ends_of_further`).
-/

namespace Descent

/-! ## Cursors -/

namespace Cursor

/-- An action that succeeds has moved the cursor on. -/
def Action.Consumes (a : Action) : Prop :=
  ∀ ⦃c : Cursor⦄ ⦃x c'⦄, c.perform a = (.ok x, c') → c.offset < c'.offset

end Cursor

/-- A pattern never matches the empty text. -/
def Pattern.Consumes (p : Pattern) : Prop :=
  ∀ ⦃cs n⦄, p.extent? cs = .ok (some n) → 0 < Text.size (cs.take n)

theorem Pattern.Spans.consumes {p : Pattern} {span? : List Char → Option (List Char × List Char)}
    (hs : p.Spans span?) (hne : ∀ {cs l r}, span? cs = some (l, r) → l ≠ []) : p.Consumes := by
  intro cs n h
  rw [hs.extent?_eq, Except.ok.injEq, Option.map_eq_some_iff] at h
  obtain ⟨⟨l, r⟩, hspan, rfl⟩ := h
  rw [← hs.append_eq hspan, List.take_left, Nat.pos_iff_ne_zero, Ne, Text.size_eq_zero]
  exact hne hspan

theorem consumes_literal {text : String} (h : text.toList ≠ []) :
    (Pattern.literal text).Consumes := by
  refine (spans_literal text).consumes fun hspan => ?_
  unfold literalSpan? at hspan
  split at hspan <;> cases hspan
  exact h

namespace Cursor

variable {c c' : Cursor} {p : Pattern} {expected : Option String}

/-- What was found has moved the cursor on. -/
theorem offset_lt_take? (hp : p.Consumes) {x : String} (h : c.take? p = (.ok (some x), c')) :
    c.offset < c'.offset := by
  unfold take? at h
  rcases hextent : p.extent? c.ahead with e | _ | n <;> rw [hextent] at h <;> cases h
  rw [offset_forward]
  exact Nat.lt_add_of_pos_right (hp hextent)

theorem consumes_take (hp : p.Consumes) (message : Option String) :
    (Action.take p message).Consumes := by
  intro c x c' h
  exact offset_lt_take? hp (take_eq_ok_iff.1 h)

/-- A word that may not be empty is taken from the text. -/
theorem consumes_takeThisWord (h : wordFault? expected "" ≠ none) :
    (Action.takeThisWord expected).Consumes := by
  intro c x c' hrun
  change c.takeThisWord expected = _ at hrun
  cases hfault : wordFault? expected c.plain.word with
  | some message =>
    obtain ⟨e, c'', hc⟩ := takeThisWord_of_fault hfault
    cases hc.symm.trans hrun
  | none =>
    obtain ⟨c'', hc, hmoves⟩ := takeThisWord_of_no_fault hfault
    cases hc.symm.trans hrun
    have hword : (nextWord c.ahead).toList ≠ [] := by
      intro hnil
      rw [String.toList_eq_nil_iff] at hnil
      exact h (hnil ▸ hfault)
    have hread : readThisWord none c.ahead = some (nextWord c.ahead, behindWord c.ahead) := by
      rw [readThisWord, wordFault?_none_iff.2 hword]
    have hshrinks := shrinks_readThisWord hread
    have hle : c.offset ≤ (c.takeThisWord expected).2.offset :=
      offset_le_perform (a := .takeThisWord expected) rfl c
    rw [hrun] at hle
    refine Nat.lt_of_le_of_ne hle fun heq => ?_
    have hbehind := ((MovesTo.refl c).offset_eq_iff hmoves).1 heq
    exact absurd (congrArg List.length hbehind) (Nat.ne_of_gt hshrinks)

end Cursor

/-! ## Requests -/

/-- Whether the answer to a request, and how far it moves, depend on what is ahead alone. -/
def Request.isLocal : Request → Bool
  | act a => a.isLocal
  | sees .. | parse .. | series .. | commaList .. | state => true
  | rewind _ | insert .. | copy _ | write .. => false

/-- A local request is alike to itself. -/
theorem Request.exists_corresponds {r : Request} (hr : r.isLocal) (d : Nat) (ids : List NodeId) :
    ∃ A, Request.Corresponds d ids r r A := by
  cases r with
  | act a => exact ⟨_, .act hr⟩
  | sees p options => exact ⟨_, .sees p options⟩
  | parse kind options => exact ⟨_, .parse kind options⟩
  | series kind options => exact ⟨_, .series kind options⟩
  | commaList kind options => exact ⟨_, .commaList kind options⟩
  | state => exact ⟨_, .state⟩
  | rewind | insert | copy | write => cases hr

namespace Grammar

open Session

variable {g : Grammar} {kind : String} {p : Production} {options : Options} {levels : Nat}
  {s s' : Session} {r : Request}

/-- Over a local grammar, a local request never ends in front of where it began. -/
theorem offset_le_handler (hg : ∀ p ∈ g.productions, p.Local) (hr : r.isLocal) (levels : Nat)
    (s : Session) : s.cursor.offset ≤ (g.handler levels r s).2.cursor.offset := by
  obtain ⟨A, hA⟩ := r.exists_corresponds hr s.tree.size []
  have hmoved := ((parallels_handler hg levels).answer hA (rooted_origin g s) (.nil _)
    (moved_origin g s)).2
  rw [hmoved.offset]
  exact Nat.le_add_left ..

/-- A parse of a production that succeeds ends further on than it began. -/
def Consumes (g : Grammar) (kind : String) : Prop :=
  ∀ ⦃levels options s id s'⦄, g.handler levels (.parse kind options) s = (.ok id, s') →
    s.cursor.offset < s'.cursor.offset

/-- A production whose program consumes text consumes it itself. -/
theorem consumes_of_body (hp : g.find kind = .ok p)
    (hbody : ∀ levels options s, (p.body options).Ensures (g.handler levels) s
      fun _ s' => s.cursor.offset < s'.cursor.offset) : g.Consumes kind := by
  intro levels options s id s' h
  obtain ⟨q, below, fields, after, hq, -, hrun, -, hcursor, -⟩ := parse_ok h
  cases hp.symm.trans hq
  rw [hcursor]
  exact hbody below options { s with depth := s.depth + 1 } hrun

/-! ## Repetitions -/

/-- What answers the requests one level deeper leaves the text, its settings and the depth alone. -/
theorem stays_levels (g : Grammar) (levels : Nat) :
    ∀ handle ∈ Session.inner g levels, ∀ r s, Session.Stays s (handle r s).2 := by
  cases levels with
  | zero => exact nofun
  | succ levels =>
    rintro _ ⟨⟩
    exact g.stays_handler levels

section
variable {inner : Option Handler} {id : NodeId}
  (hforward : ∀ {s id s'}, p.parse inner options s = (.ok id, s') →
    s.cursor.offset ≤ s'.cursor.offset)
include hforward

theorem seriesRound_further (h : g.seriesRound inner p options s = (.ok (.next id), s')) :
    s.cursor.offset < s'.cursor.offset := by
  obtain ⟨hparse, hne⟩ := seriesRound_next h
  have hspaced : s.cursor.offset ≤ s.spaced.cursor.offset := s.cursor.offset_le_dropSpace
  have helement := hforward hparse
  omega

theorem commaRound_further (h : g.commaRound inner p options s = (.ok (.next id), s')) :
    s.cursor.offset < s'.cursor.offset := by
  obtain ⟨after, hparse, hlt⟩ := commaRound_next h
  have hspaced : s.cursor.offset ≤ s.spaced.cursor.offset := s.cursor.offset_le_dropSpace
  have helement := hforward hparse
  omega

end

end Grammar

namespace Session

variable {round : Session → Outcome Session Round} (hstays : ∀ s : Session, s.Stays (round s).2)
  (hfurther : ∀ {s id s'}, round s = (.ok (.next id), s') → s.cursor.offset < s'.cursor.offset)
include hstays hfurther

theorem goes_further {s s' : Session} {ids : List NodeId} (h : Goes round s ids s') :
    ids.length ≤ s.cursor.ahead.length := by
  have hle := h.length_add_le (P := fun _ => True) (fun s => s.cursor.ahead.length)
    (fun {s id s'} _ hround => ?_) trivial
  · omega
  · have htext := (hstays s).text
    rw [hround] at htext
    exact ⟨trivial, Cursor.length_ahead_lt htext (hfurther hround)⟩

/-- A repetition whose rounds go further on ends by itself. -/
theorem ends_of_further (s : Session) : Ends round s (collectAll round s) := by
  refine (repeats_collectAll round s).ends ?_
  rintro ⟨ids, s', hgoes, hlength⟩
  have := goes_further hstays hfurther hgoes
  omega

end Session

namespace Grammar

open Session

variable {g : Grammar} {kind : String} {p : Production} {levels : Nat}

section
variable (hg : ∀ p ∈ g.productions, p.Local) (hp : g.find kind = .ok p)
include hg hp

theorem offset_le_parse {options : Options} {s s' : Session} {id : NodeId}
    (h : p.parse (inner g levels) options s = (.ok id, s')) :
    s.cursor.offset ≤ s'.cursor.offset := by
  have hle := offset_le_handler hg (r := .parse kind options) rfl levels s
  rwa [(handler_parse hp).trans h] at hle

theorem ends_seriesRound (options : Options) (s : Session) :
    Ends (g.seriesRound (inner g levels) p options) s
      (g.handler levels (.series kind options) s) := by
  rw [handler_eq_answer]
  simp only [answer, series, hp]
  exact ends_of_further (stays_seriesRound (g.stays_levels levels) p options)
    (seriesRound_further (offset_le_parse hg hp)) s

theorem ends_commaRound (options : Options) (s : Session) :
    Ends (g.commaRound (inner g levels) p options) s
      (g.handler levels (.commaList kind options) s) := by
  rw [handler_eq_answer]
  simp only [answer, commaList, hp]
  exact ends_of_further (stays_commaRound (g.stays_levels levels) p options)
    (commaRound_further (offset_le_parse hg hp)) s

end
end Grammar

/-- A program is run as with the levels that its session has left. -/
theorem Session.run_handle {α : Type} (g : Grammar) (p : Program α) (s : Session) :
    p.run (handle g) s = p.run (g.handler (s.cursor.settings.maxDepth - s.depth)) s := by
  refine Program.run_congr (P := s.Stays) (fun r s' hs => hs.trans (stays_handle g r s'))
    (fun r s' hs => ?_) p (.refl s)
  exact handle_eq_handler hs.levels r

namespace Program.Ensures

variable {α β : Type} {g : Grammar} {levels : Nat} {s : Session} {Q : β → Session → Prop}

/-- The rule for a local action. -/
theorem forward_bind {a : Cursor.Action} {f : a.Answer → Program β} (ha : a.isLocal)
    (hf : ∀ x c, s.cursor.offset ≤ c.offset →
      (f x).Ensures (g.handler levels) { s with cursor := c } Q) :
    (act a >>= f).Ensures (g.handler levels) s Q := by
  refine perform_bind fun x c h => hf x c ?_
  have hle := Cursor.offset_le_perform ha s.cursor
  rwa [h] at hle

/-- The rule for an action that consumes text. -/
theorem consume_bind {a : Cursor.Action} {f : a.Answer → Program β} (ha : a.Consumes)
    (hf : ∀ x c, s.cursor.offset < c.offset →
      (f x).Ensures (g.handler levels) { s with cursor := c } Q) :
    (act a >>= f).Ensures (g.handler levels) s Q :=
  perform_bind fun x c h => hf x c (ha h)

/-- The rule for a pattern that may not be there. -/
theorem take?_bind {p : Pattern} (hp : p.Consumes) {f : Option String → Program β}
    (hsome : ∀ x c, s.cursor.offset < c.offset →
      (f (some x)).Ensures (g.handler levels) { s with cursor := c } Q)
    (hnone : (f none).Ensures (g.handler levels) s Q) :
    (take? p >>= f).Ensures (g.handler levels) s Q := by
  refine perform_bind fun taken c h => ?_
  cases taken with
  | some x => exact hsome x c (Cursor.offset_lt_take? hp h)
  | none =>
    have hstay : s.cursor.take? p = (.ok none, c) := h
    unfold Cursor.take? at hstay
    rcases hextent : p.extent? s.cursor.ahead with e | _ | n <;> rw [hextent] at hstay <;>
      cases hstay
    exact hnone

/-- A local program that goes back to no node but its own ends no earlier than it begins. -/
theorem onward (hg : ∀ p ∈ g.productions, p.Local) {p : Program α}
    {R : List NodeId → α → α → Prop} (hp : p.Local s.tree.size R [] p) :
    p.Ensures (g.handler levels) s fun _ s' => s.cursor.offset ≤ s'.cursor.offset := by
  intro a s' hrun
  have hroot := Session.rooted_origin g s
  have hmoved := ((Session.parallels_handler hg levels).run hp (hroot.grown rfl rfl)
    (Session.moved_origin g s)).2
  rw [hrun] at hmoved
  rw [hmoved.offset]
  exact Nat.le_add_left ..

/-- The rule for a local request. -/
theorem local_bind (hg : ∀ p ∈ g.productions, p.Local) {r : Request} {f : r.Answer → Program β}
    (hr : r.isLocal)
    (hf : ∀ x s', g.handler levels r s = (.ok x, s') → s.cursor.offset ≤ s'.cursor.offset →
      (f x).Ensures (g.handler levels) s' Q) :
    (request r >>= f).Ensures (g.handler levels) s Q := by
  refine request_bind fun x s' h => hf x s' h ?_
  have hle := Grammar.offset_le_handler hg hr levels s
  rwa [h] at hle

end Program.Ensures
end Descent
