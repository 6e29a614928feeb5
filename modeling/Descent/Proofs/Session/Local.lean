import Descent.Proofs.Cursor.Safety
import Descent.Proofs.Program.Grammars
import Descent.Proofs.Session.Progress

/-!
# Parsing is local

* `Session.Moved`: a session that has come as far from a base as another from the start of a text;
* `Session.Parallels`: outcomes that match and lead to such sessions;
* `Session.Origin`: the session at the start of what is ahead, with an empty tree;
* `Session.Alike`: outcomes at two sessions that differ by where these stand alone.

What a session does over a local grammar follows what its origin does (`parallels_handler`),
whatever is behind its cursor, in its tree, marked or recalled. Two sessions with one origin do
alike.
-/

namespace Descent

open Text (Boundary)

namespace Session

/-! ## Sessions that have moved alike -/

/-- A session has behind its cursor and in its tree what a base has, and on top of this what `s₀`
has. The mark is that of the base. -/
structure Moved (b s₀ s : Session) : Prop where
  behind : s.cursor.behind = s₀.cursor.behind ++ b.cursor.behind
  ahead : s.cursor.ahead = s₀.cursor.ahead
  mark : s.cursor.mark = b.cursor.mark
  settings : s.cursor.settings = s₀.cursor.settings
  depth : s.depth = s₀.depth
  tree : Tree.Onto b.tree b.cursor.offset s₀.tree s.tree

/-- A session whose nodes have all been parsed from its text. -/
structure Rooted (g : Grammar) (s₀ : Session) : Prop where
  owned : s₀.tree.Owned
  kinds : s₀.tree.kinds = g.kinds
  start : ∀ {id node}, s₀.tree.node? id = some node →
    ∃ n, node.start = some n ∧ Boundary s₀.cursor.text n

/-- What becomes of a session whose nodes are from its text: it gets new ones, those in `ids`
free. -/
structure Grown (g : Grammar) (s₀ : Session) (ids : List NodeId) (s₀' : Session) : Prop where
  tree : s₀.tree.Sprouts ids s₀'.tree
  rooted : s₀'.Rooted g
  text : s₀'.cursor.text = s₀.cursor.text

/-- An outcome matches another, and leads as far from a base. -/
def Parallels {α β : Type} (b : Session) (Q : α → β → Session → Prop) (o₀ : Outcome Session α)
    (o : Outcome Session β) : Prop :=
  Matches (fun a₀ a => Q a₀ a o₀.2) o₀.1 o.1 ∧ Moved b o₀.2 o.2

variable {α β : Type} {g : Grammar} {b s₀ s₀' s₀'' s s' : Session} {ids ids' : List NodeId}

theorem Parallels.mono {Q Q' : α → β → Session → Prop} {o₀ : Outcome Session α}
    {o : Outcome Session β} (h : Parallels b Q o₀ o)
    (hQ : ∀ a₀ a s₀, Q a₀ a s₀ → Q' a₀ a s₀) : Parallels b Q' o₀ o :=
  ⟨h.1.mono fun a₀ a => hQ a₀ a o₀.2, h.2⟩

theorem Parallels.ok {Q : α → β → Session → Prop} {a₀ : α} {a : β} (hq : Q a₀ a s₀)
    (hm : Moved b s₀ s) : Parallels b Q (.ok a₀, s₀) (.ok a, s) :=
  ⟨hq, hm⟩

theorem Parallels.error {Q : α → β → Session → Prop} {e₀ e : Failure} (he : e₀.bare = e.bare)
    (hm : Moved b s₀ s) : Parallels b Q (.error e₀, s₀) (.error e, s) :=
  ⟨he, hm⟩

/-- Both outcomes are answers, or both are failures. -/
theorem Parallels.cases {Q : α → β → Session → Prop} {o₀ : Outcome Session α}
    {o : Outcome Session β} (h : Parallels b Q o₀ o) :
    (∃ a₀ s₀ a s, o₀ = (.ok a₀, s₀) ∧ o = (.ok a, s) ∧ Q a₀ a s₀ ∧ Moved b s₀ s) ∨
      ∃ e₀ s₀ e s, o₀ = (.error e₀, s₀) ∧ o = (.error e, s) ∧ e₀.bare = e.bare ∧
        Moved b s₀ s := by
  obtain ⟨hanswer, hm⟩ := h
  rcases o₀ with ⟨e₀ | a₀, s₀⟩ <;> rcases o with ⟨e | a, s⟩
  · exact .inr ⟨e₀, s₀, e, s, rfl, rfl, hanswer, hm⟩
  · cases hanswer
  · cases hanswer
  · exact .inl ⟨a₀, s₀, a, s, rfl, rfl, hanswer, hm⟩

namespace Moved

variable (h : Moved b s₀ s)
include h

theorem offset : s.cursor.offset = s₀.cursor.offset + b.cursor.offset := by
  rw [Cursor.offset, h.behind, Text.size_append]
  rfl

theorem text : s.cursor.text = b.cursor.behind.reverse ++ s₀.cursor.text := by
  rw [Cursor.text, Cursor.text, h.behind, h.ahead, List.reverse_append, List.append_assoc]

/-- Both cursors move to the same place. -/
theorem place {c₀ c : Cursor} {behind ahead : List Char}
    (h₀ : c₀.plain = { s₀.cursor.plain with behind, ahead })
    (hc : c.plain = { s.cursor.plain with behind := behind ++ b.cursor.behind, ahead }) :
    Moved b { s₀ with cursor := c₀ } { s with cursor := c } where
  behind := (congrArg Cursor.Plain.behind hc).trans
    (congrArg (· ++ b.cursor.behind) (congrArg Cursor.Plain.behind h₀)).symm
  ahead := (congrArg Cursor.Plain.ahead hc).trans (congrArg Cursor.Plain.ahead h₀).symm
  mark := (congrArg Cursor.Plain.mark hc).trans h.mark
  settings := (congrArg Cursor.Plain.settings hc).trans
    (h.settings.trans (congrArg Cursor.Plain.settings h₀).symm)
  depth := h.depth
  tree := h.tree

theorem forward {c₀ c : Cursor} {n : Nat} (h₀ : c₀.plain = (s₀.cursor.forward n).plain)
    (hc : c.plain = (s.cursor.forward n).plain) :
    Moved b { s₀ with cursor := c₀ } { s with cursor := c } := by
  refine h.place h₀ (hc.trans ?_)
  rw [Cursor.plain_forward, h.ahead, h.behind, ← List.append_assoc]
  rfl

theorem forward_spaced : Moved b s₀.spaced s.spaced := by
  obtain ⟨-, n, h₀, hs⟩ := Cursor.perform_local (a := .dropSpace) h.ahead.symm rfl
  exact h.forward h₀ hs

theorem withDepth (n : Nat) : Moved b { s₀ with depth := n } { s with depth := n } :=
  ⟨h.behind, h.ahead, h.mark, h.settings, rfl, h.tree⟩

end Moved

theorem Rooted.congr (h : s₀.Rooted g) (htree : s₀'.tree = s₀.tree)
    (htext : s₀'.cursor.text = s₀.cursor.text) : s₀'.Rooted g where
  owned := htree ▸ h.owned
  kinds := htree ▸ h.kinds
  start hn := by
    rw [htree] at hn
    rw [htext]
    exact h.start hn

/-- No node is new. -/
theorem Rooted.grown (h : s₀.Rooted g) (htree : s₀'.tree = s₀.tree)
    (htext : s₀'.cursor.text = s₀.cursor.text) : Grown g s₀ [] s₀' :=
  ⟨by rw [htree]; exact .nil h.owned, h.congr htree htext, htext⟩

theorem Grown.trans (h : Grown g s₀ ids s₀') (h' : Grown g s₀' ids' s₀'') :
    Grown g s₀ (ids ++ ids') s₀'' :=
  ⟨h.tree.append h'.tree, h'.rooted, h'.text.trans h.text⟩

/-! ## Programs -/

/-- A handler answers requests that correspond as it does at the session that one has moved from. -/
structure ParallelsAll (g : Grammar) (b : Session) (handle : Handler) : Prop where
  answer : ∀ {ids r r' A s₀ s}, Request.Corresponds b.tree.size ids r r' A → s₀.Rooted g →
    s₀.tree.Free ids → Moved b s₀ s →
    Parallels b (fun x x' s₀' => ∃ new, A x x' new ∧ Grown g s₀ new s₀') (handle r s₀) (handle r' s)

/-- A local program follows itself. -/
theorem ParallelsAll.run {handle : Handler} (hh : ParallelsAll g b handle)
    {Q : List NodeId → α → α → Prop} {p p' : Program α} (hp : p.Local b.tree.size Q ids p')
    (hg : Grown g s₀ ids s₀') (hm : Moved b s₀' s') :
    Parallels b (fun a a' s₀'' => ∃ ids', Q ids' a a' ∧ Grown g s₀ ids' s₀'')
      (p.run handle s₀') (p'.run handle s') := by
  induction hp generalizing s₀' s' with
  | done hq => exact ⟨⟨_, hq, hg⟩, hm⟩
  | @ask ids r r' A next next' hr he he' _ ih =>
    rw [Program.run, Program.run]
    rcases (hh.answer hr hg.rooted hg.tree.fresh.free hm).cases with
      ⟨x, after, x', after', h₀, h, ⟨new, hx, hnew⟩, hm'⟩ |
      ⟨e, after, e', after', h₀, h, hbare, hm'⟩
    · rw [h₀, h]
      exact ih hx (hg.trans hnew) hm'
    · rw [h₀, h]
      simp only [he, he']
      exact .error hbare hm'

/-! ## Productions -/

/-- A node over some of the new ones. -/
theorem Grown.node (h : Grown g s₀ ids s₀') {p : Production} (hp : p.name ∈ g.kinds)
    (hr : s₀.Rooted g) {fields : Fields} (hfields : fields.children.Sublist ids) {depth : Nat} :
    Grown g s₀ [⟨s₀'.tree.size⟩] { s₀' with
      tree := (s₀'.tree.append p.name (some s₀.cursor.offset) fields).2, depth } := by
  have hchildren : s₀.tree.Sprouts fields.children s₀'.tree := h.tree.sublist hfields
  have hnode : s₀.tree.Sprouts [⟨s₀'.tree.size⟩]
      (s₀'.tree.append p.name (some s₀.cursor.offset) fields).2 :=
    hchildren.node (hr.kinds ▸ hp)
  refine ⟨hnode, ⟨hnode.owned, hnode.grows.kinds.trans hr.kinds, ?_⟩, h.text⟩
  intro id node hn
  rw [Tree.node?_append] at hn
  split at hn
  · cases hn
    exact ⟨_, rfl, h.text ▸ s₀.cursor.offset_boundary⟩
  · obtain ⟨old, hold, rfl⟩ := Option.map_eq_some_iff.1 hn
    obtain ⟨n, hstart, hn⟩ := h.rooted.start hold
    refine ⟨n, ?_, hn⟩
    split <;> exact hstart

section
variable {p : Production} (hp : p.Local) {inner : Option Handler}
  (hi : ∀ handle ∈ inner, ParallelsAll g b handle)
include hp hi

theorem parallels_parse (hmem : p.name ∈ g.kinds) (options : Options) (hr : s₀.Rooted g)
    (hm : Moved b s₀ s) :
    Parallels b (fun id id' s₀' => id' = id.shift b.tree.size ∧ Grown g s₀ [id] s₀')
      (p.parse inner options s₀) (p.parse inner options s) := by
  have hdeep : s₀.tooDeep.bare = s.tooDeep.bare := by
    rw [tooDeep, tooDeep, hm.depth, hm.settings]
    rfl
  unfold Production.parse
  rw [hm.depth, hm.settings]
  split
  · exact .error hdeep hm
  · cases inner with
    | none => exact .error hdeep hm
    | some handle =>
      simp only
      have hinside : Grown g s₀ [] { s₀ with depth := s₀.depth + 1 } := hr.grown rfl rfl
      rcases ((hi handle rfl).run (hp.body b.tree.size options) hinside
          (hm.withDepth (s₀.depth + 1))).cases with
        ⟨fields, after, _, after', h₀, h, ⟨ids, ⟨rfl, hchildren⟩, hgrown⟩, hm'⟩ |
        ⟨e, after, e', after', h₀, h, hbare, hm'⟩
      · rw [h₀, h]
        have hfree := hgrown.tree.fresh.free.sublist hchildren
        have hfree' : after'.tree.Free (fields.shift b.tree.size).children := by
          rw [Fields.children_shift]
          exact hm'.tree.free hfree
        simp only [Tree.graft_of_free hfree, Tree.graft_of_free hfree', hm.offset]
        refine .ok ⟨?_, hgrown.node hmem hr hchildren⟩ ?_
        · rw [hm'.tree.size]
          rfl
        · exact ⟨hm'.behind, hm'.ahead, hm'.mark, hm'.settings, congrArg (· - 1) hm'.depth,
            hm'.tree.append⟩
      · rw [h₀, h]
        exact .error hbare ⟨hm'.behind, hm'.ahead, hm'.mark, hm'.settings,
          congrArg (· - 1) hm'.depth, hm'.tree⟩

end

/-! ## Repetitions -/

/-- The node that a round has found. -/
def Round.found : Round → List NodeId
  | stop => []
  | last id | next id => [id]

def Round.shift (d : Nat) : Round → Round
  | stop => stop
  | last id => last (id.shift d)
  | next id => next (id.shift d)

/-- Rounds that follow each other do so when they are repeated. -/
theorem parallels_collect {round : Session → Outcome Session Round}
    (hround : ∀ {s₀ s}, s₀.Rooted g → Moved b s₀ s →
      Parallels b (fun x x' s₀' => x' = x.shift b.tree.size ∧ Grown g s₀ x.found s₀')
        (round s₀) (round s))
    (found : List NodeId) (hg : Grown g s₀ found.reverse s₀') (hm : Moved b s₀' s')
    (fuel : Nat) :
    Parallels b
      (fun ids ids' s₀'' => ids' = ids.map (NodeId.shift b.tree.size) ∧ Grown g s₀ ids s₀'')
      (collect round found fuel s₀')
      (collect round (found.map (NodeId.shift b.tree.size)) fuel s') := by
  induction fuel generalizing found s₀' s' with
  | zero => exact .error rfl hm
  | succ fuel ih =>
    rw [collect, collect]
    rcases (hround hg.rooted hm).cases with
      ⟨x, after, _, after', h₀, h, ⟨rfl, hgrown⟩, hm'⟩ | ⟨e, after, e', after', h₀, h, hbare, hm'⟩
    · rw [h₀, h]
      have hgrown' := hg.trans hgrown
      cases x with
      | stop =>
        rw [Round.found, List.append_nil] at hgrown'
        exact .ok ⟨List.map_reverse.symm, hgrown'⟩ hm'
      | last id =>
        rw [Round.found, ← List.reverse_cons] at hgrown'
        refine .ok ⟨?_, hgrown'⟩ hm'
        rw [List.map_reverse, List.map_cons]
      | next id =>
        rw [Round.found, ← List.reverse_cons] at hgrown'
        exact ih _ hgrown' hm'
    · rw [h₀, h]
      exact .error hbare hm'

section
variable (hg : ∀ p ∈ g.productions, p.Local)
include hg

theorem seesWithin_congr (h : s₀.cursor.ahead = s.cursor.ahead) (fuel : Nat) :
    g.seesWithin s₀ fuel = g.seesWithin s fuel := by
  induction fuel with
  | zero =>
    funext q options
    cases q with
    | literal | regex => exact Cursor.sees_congr h _
    | production kind => rfl
  | succ fuel ih =>
    funext q options
    cases q with
    | literal | regex => exact Cursor.sees_congr h _
    | production kind =>
      rw [Grammar.seesWithin, Grammar.seesWithin, ih]
      cases hp : g.find kind with
      | error e => rfl
      | ok p => exact (hg p (Grammar.mem_of_find hp)).starts_eq h

theorem seesStart_congr (h : s₀.cursor.ahead = s.cursor.ahead) {p : Production} (hp : p.Local)
    (options : Options) : g.seesStart p options s₀ = g.seesStart p options s := by
  have hsees : g.sees s₀ = g.sees s := by
    funext q options
    rw [Grammar.sees, Grammar.sees, seesWithin_congr hg h]
  rw [Grammar.seesStart, Grammar.seesStart, hsees]
  exact hp.starts_eq h

variable {inner : Option Handler} (hi : ∀ handle ∈ inner, ParallelsAll g b handle)
include hi

theorem parallels_seriesRound {p : Production} (hp : p ∈ g.productions) (options : Options)
    (hr : s₀.Rooted g) (hm : Moved b s₀ s) :
    Parallels b (fun x x' s₀' => x' = x.shift b.tree.size ∧ Grown g s₀ x.found s₀')
      (g.seriesRound inner p options s₀) (g.seriesRound inner p options s) := by
  have hspaced := hm.forward_spaced
  have htext : s₀.spaced.cursor.text = s₀.cursor.text := s₀.stays_spaced.text
  have hgrown : Grown g s₀ [] s₀.spaced := hr.grown rfl htext
  unfold Grammar.seriesRound
  simp only
  rw [← seesStart_congr hg hspaced.ahead.symm (hg p hp) options]
  rcases g.seesStart p options s₀.spaced with e | _ | _
  · exact .error rfl hspaced
  · have hback (s : Session) :
        (s.spaced.cursor.moveTo s.cursor.offset).plain = s.cursor.plain :=
      Cursor.plain_moveTo_offset s.stays_spaced.text rfl rfl
    refine .ok ⟨rfl, hr.grown rfl ?_⟩ (hm.forward (n := 0) (hback s₀) (hback s))
    exact (Cursor.moveTo_movesTo _ _).text.trans htext
  · rcases (parallels_parse (hg p hp) hi (List.mem_map_of_mem hp) options hgrown.rooted
        hspaced).cases with
      ⟨id, after, _, after', h₀, h, ⟨rfl, hnode⟩, hm'⟩ | ⟨e, after, e', after', h₀, h, hbare, hm'⟩
    · rw [h₀, h]
      have hend : after'.cursor.offset = s.spaced.cursor.offset ↔
          after.cursor.offset = s₀.spaced.cursor.offset := by
        rw [hm'.offset, hspaced.offset, Nat.add_right_cancel_iff]
      simp only [hend]
      split
      · exact .error rfl hm'
      · exact .ok ⟨rfl, hgrown.trans hnode⟩ hm'
    · rw [h₀, h]
      exact .error hbare hm'

theorem parallels_commaRound {p : Production} (hp : p ∈ g.productions) (options : Options)
    (hr : s₀.Rooted g) (hm : Moved b s₀ s) :
    Parallels b (fun x x' s₀' => x' = x.shift b.tree.size ∧ Grown g s₀ x.found s₀')
      (g.commaRound inner p options s₀) (g.commaRound inner p options s) := by
  have hspaced := hm.forward_spaced
  have htext : s₀.spaced.cursor.text = s₀.cursor.text := s₀.stays_spaced.text
  have hgrown : Grown g s₀ [] s₀.spaced := hr.grown rfl htext
  unfold Grammar.commaRound
  simp only
  rw [← seesStart_congr hg hspaced.ahead.symm (hg p hp) options]
  rcases g.seesStart p options s₀.spaced with e | _ | _
  · exact .error rfl hspaced
  · exact .error rfl hspaced
  · rcases (parallels_parse (hg p hp) hi (List.mem_map_of_mem hp) options hgrown.rooted
        hspaced).cases with
      ⟨id, after, _, after', h₀, h, ⟨rfl, hnode⟩, hm'⟩ | ⟨e, after, e', after', h₀, h, hbare, hm'⟩
    · rw [h₀, h]
      have hspaced' := hm'.forward_spaced
      obtain ⟨hanswer, n, hmove₀, hmove⟩ :=
        Cursor.take?_congr hspaced'.ahead.symm (.literal ",")
      have hcomma := hspaced'.forward hmove₀ hmove
      have htext' : (after.spaced.cursor.take? (.literal ",")).2.text = after.cursor.text :=
        (Cursor.take?_movesTo _ _).text.trans after.stays_spaced.text
      simp only
      rcases ht₀ : after.spaced.cursor.take? (.literal ",") with ⟨answer, c₀⟩
      rcases ht : after'.spaced.cursor.take? (.literal ",") with ⟨answer', c⟩
      rw [ht₀, ht] at hcomma hanswer
      rw [ht₀] at htext'
      obtain rfl : answer = answer' := hanswer
      have hnode' : Grown g s₀ [id] { after with cursor := c₀ } :=
        (hgrown.trans hnode).trans (hnode.rooted.grown rfl htext')
      rcases answer with e | _ | _
      · exact .error rfl hcomma
      · exact .ok ⟨rfl, hnode'⟩ hcomma
      · exact .ok ⟨rfl, hnode'⟩ hcomma
    · rw [h₀, h]
      exact .error hbare hm'

theorem parallels_series (kind : String) (options : Options) (hr : s₀.Rooted g)
    (hm : Moved b s₀ s) :
    Parallels b (fun ids ids' s₀' => ids' = ids.map (NodeId.shift b.tree.size) ∧ Grown g s₀ ids s₀')
      (g.series inner kind options s₀) (g.series inner kind options s) := by
  unfold Grammar.series
  cases hp : g.find kind with
  | error e => exact .error rfl hm
  | ok p =>
    simp only [collectAll, hm.ahead]
    exact parallels_collect (parallels_seriesRound hg hi (Grammar.mem_of_find hp) options) []
      (hr.grown rfl rfl) hm _

theorem parallels_commaList (kind : String) (options : Options) (hr : s₀.Rooted g)
    (hm : Moved b s₀ s) :
    Parallels b (fun ids ids' s₀' => ids' = ids.map (NodeId.shift b.tree.size) ∧ Grown g s₀ ids s₀')
      (g.commaList inner kind options s₀) (g.commaList inner kind options s) := by
  unfold Grammar.commaList
  cases hp : g.find kind with
  | error e => exact .error rfl hm
  | ok p =>
    simp only [collectAll, hm.ahead]
    exact parallels_collect (parallels_commaRound hg hi (Grammar.mem_of_find hp) options) []
      (hr.grown rfl rfl) hm _

theorem parallels_answer : ParallelsAll g b (g.answer inner) where
  answer {ids r r' A s₀ s} hr hroot hfree hm := by
    cases hr with
    | @act a ha =>
      obtain ⟨hanswer, n, h₀, h⟩ := Cursor.perform_local hm.ahead.symm ha
      refine ⟨hanswer.mono ?_, hm.forward h₀ h⟩
      rintro x _ rfl
      exact ⟨[], ⟨rfl, rfl⟩, hroot.grown rfl (s₀.cursor.perform_text a)⟩
    | sees p options =>
      have hsees : g.sees s₀ p options = g.sees s p options := by
        rw [Grammar.sees, Grammar.sees, seesWithin_congr hg hm.ahead.symm]
      refine ⟨(Matches.of_eq hsees).mono ?_, hm⟩
      rintro x _ rfl
      exact ⟨[], ⟨rfl, rfl⟩, hroot.grown rfl rfl⟩
    | parse kind options =>
      simp only [Grammar.answer, Grammar.parse]
      cases hp : g.find kind with
      | error e => exact .error rfl hm
      | ok p =>
        have hmem := Grammar.mem_of_find hp
        refine (parallels_parse (hg p hmem) hi (List.mem_map_of_mem hmem) options hroot hm).mono ?_
        rintro id _ s₀' ⟨rfl, hgrown⟩
        exact ⟨[id], ⟨rfl, rfl⟩, hgrown⟩
    | series kind options =>
      refine (parallels_series hg hi kind options hroot hm).mono ?_
      rintro found _ s₀' ⟨rfl, hgrown⟩
      exact ⟨found, ⟨rfl, rfl⟩, hgrown⟩
    | commaList kind options =>
      refine (parallels_commaList hg hi kind options hroot hm).mono ?_
      rintro found _ s₀' ⟨rfl, hgrown⟩
      exact ⟨found, ⟨rfl, rfl⟩, hgrown⟩
    | @rewind id hid =>
      obtain ⟨node, hnode, -⟩ := hfree.present id hid
      obtain ⟨n, hstart, l, r, htext, hl⟩ := hroot.start hnode
      have hnode' : s.tree.node? (id.shift b.tree.size) =
          some (node.shift b.tree.size b.cursor.offset) := by
        rw [hm.tree.new, hnode]
        rfl
      have hstart' : (node.shift b.tree.size b.cursor.offset).start =
          some (Text.size (b.cursor.behind.reverse ++ l)) := by
        rw [Node.shift, hstart, Text.size_append, Text.size_reverse, hl, Nat.add_comm]
        rfl
      have htext' : b.cursor.behind.reverse ++ l ++ r = s.cursor.text := by
        rw [hm.text, ← htext, List.append_assoc]
      simp only [Grammar.answer, rewind, hnode, hnode', hstart, hstart', ← hl,
        Cursor.goTo_size htext, Cursor.goTo_size htext']
      refine .ok ⟨[], rfl, hroot.grown rfl (Cursor.text_place _ _ _ (by simpa using htext))⟩ ?_
      refine hm.place rfl ?_
      rw [Cursor.plain_place, List.reverse_append, List.reverse_reverse]
      rfl
    | state => exact .ok ⟨[], ⟨hm.ahead.symm, rfl⟩, hroot.grown rfl rfl⟩ hm

end

/-- Every request to a session over a local grammar is answered as at the session that it has moved
from. -/
theorem parallels_handler (hg : ∀ p ∈ g.productions, p.Local) (levels : Nat) :
    ParallelsAll g b (g.handler levels) := by
  induction levels with
  | zero => exact parallels_answer hg (fun _ h => by cases h)
  | succ levels ih =>
    refine parallels_answer hg ?_
    rintro _ ⟨⟩
    exact ih

/-! ## Two sessions -/

/-- The session at the start of what is ahead of another, with no node and no mark. -/
def origin (g : Grammar) (s : Session) : Session where
  cursor := { Cursor.ofText (String.ofList s.cursor.ahead) with settings := s.cursor.settings }
  tree := .empty g.kinds
  depth := s.depth

theorem moved_origin (g : Grammar) (s : Session) : Moved s (s.origin g) s where
  behind := rfl
  ahead := String.toList_ofList.symm
  mark := rfl
  settings := rfl
  depth := rfl
  tree := Tree.onto_empty ..

theorem rooted_origin (g : Grammar) (s : Session) : (s.origin g).Rooted g :=
  ⟨Tree.owned_empty _, rfl, nofun⟩

/-- Two outcomes of one request, at sessions of which the second may stand elsewhere in another
text, over another tree: both are answers or both fail alike; the same text is passed; the same
nodes are added, but for their numbers and offsets; and all else of either session is as it was. -/
structure Alike {α : Type} (ids : α → List NodeId) (s₁ s₂ : Session) (o₁ o₂ : Outcome Session α) :
    Prop where
  answer : Matches (fun a₁ a₂ => ∃ made : List NodeId,
    ids a₁ = made.map (NodeId.shift s₁.tree.size) ∧
      ids a₂ = made.map (NodeId.shift s₂.tree.size)) o₁.1 o₂.1
  cursor : ∃ passed rest,
    (o₁.2.cursor.behind = passed ++ s₁.cursor.behind ∧ o₁.2.cursor.ahead = rest) ∧
      o₂.2.cursor.behind = passed ++ s₂.cursor.behind ∧ o₂.2.cursor.ahead = rest
  nodes : ∃ new : List Node,
    o₁.2.tree.nodes.toList =
        s₁.tree.nodes.toList ++ new.map (Node.shift s₁.tree.size s₁.cursor.offset) ∧
      o₂.2.tree.nodes.toList =
        s₂.tree.nodes.toList ++ new.map (Node.shift s₂.tree.size s₂.cursor.offset)
  mark : o₁.2.cursor.mark = s₁.cursor.mark ∧ o₂.2.cursor.mark = s₂.cursor.mark

/-- Outcomes that follow the same one are alike. -/
theorem alike_of_parallels {s₁ s₂ : Session} {f : α → List NodeId} {o₀ o₁ o₂ : Outcome Session α}
    (h₁ : Parallels s₁ (fun a₀ a _ => f a = (f a₀).map (NodeId.shift s₁.tree.size)) o₀ o₁)
    (h₂ : Parallels s₂ (fun a₀ a _ => f a = (f a₀).map (NodeId.shift s₂.tree.size)) o₀ o₂) :
    Alike f s₁ s₂ o₁ o₂ := by
  refine ⟨?_, ⟨_, _, ⟨h₁.2.behind, h₁.2.ahead⟩, h₂.2.behind, h₂.2.ahead⟩,
    ⟨_, h₁.2.tree.nodes_eq, h₂.2.tree.nodes_eq⟩, h₁.2.mark, h₂.2.mark⟩
  rcases h₁.cases with ⟨a₀, s₀, a₁, s₁', rfl, rfl, hq₁, -⟩ | ⟨e₀, s₀, e₁, s₁', rfl, rfl, hbare₁, -⟩
  · rcases h₂.cases with ⟨_, _, a₂, s₂', h, rfl, hq₂, -⟩ | ⟨_, _, _, _, h, -⟩
    · cases h
      exact ⟨f a₀, hq₁, hq₂⟩
    · cases h
  · rcases h₂.cases with ⟨_, _, _, _, h, -⟩ | ⟨_, _, e₂, s₂', h, rfl, hbare₂, -⟩
    · cases h
    · cases h
      exact hbare₁.symm.trans hbare₂

/-- Sessions with one origin answer a request alike, if that corresponds to itself. -/
theorem alike_of_local (hg : ∀ p ∈ g.productions, p.Local) {s₁ s₂ : Session}
    (hahead : s₁.cursor.ahead = s₂.cursor.ahead)
    (hsettings : s₁.cursor.settings = s₂.cursor.settings) (hdepth : s₁.depth = s₂.depth)
    {r : Request} {f : r.Answer → List NodeId}
    {A : Nat → r.Answer → r.Answer → List NodeId → Prop}
    (hr : ∀ d, Request.Corresponds d [] r r (A d))
    (hA : ∀ {d x x' new}, A d x x' new → f x' = (f x).map (NodeId.shift d)) :
    Alike f s₁ s₂ (s₁.handle g r) (s₂.handle g r) := by
  have horigin : s₁.origin g = s₂.origin g := by
    rw [origin, origin, hdepth]
    simp only [hahead, hsettings]
  have hparallels (s : Session) (levels : Nat) :
      Parallels s (fun x x' _ => f x' = (f x).map (NodeId.shift s.tree.size))
        (g.handler levels r (s.origin g)) (g.handler levels r s) := by
    refine ((parallels_handler hg levels).answer (hr _) (rooted_origin g s) (.nil _)
      (moved_origin g s)).mono ?_
    rintro x x' s₀' ⟨new, hx, -⟩
    exact hA hx
  have h₁ := hparallels s₁ (s₁.cursor.settings.maxDepth - s₁.depth)
  have h₂ := hparallels s₂ (s₁.cursor.settings.maxDepth - s₁.depth)
  rw [horigin] at h₁
  have hlevels : s₂.cursor.settings.maxDepth - s₂.depth =
      s₁.cursor.settings.maxDepth - s₁.depth := by rw [hsettings, hdepth]
  rw [handle_eq_handler rfl, handle_eq_handler hlevels]
  exact alike_of_parallels h₁ h₂

end Session

/-- **Parsing is local.** Two sessions that have the same text ahead, with the same settings and
depth, parse a node, a series of nodes or a list of them alike, whatever there is behind them, in
their trees, marked or recalled. -/
theorem Grammar.parsing_local {g : Grammar} (hg : g = Script.grammar ∨ g = Phrase.grammar)
    {s₁ s₂ : Session} (hahead : s₁.cursor.ahead = s₂.cursor.ahead)
    (hsettings : s₁.cursor.settings = s₂.cursor.settings) (hdepth : s₁.depth = s₂.depth)
    (kind : String) (options : Options) :
    Session.Alike (fun id => [id]) s₁ s₂
        (s₁.handle g (.parse kind options)) (s₂.handle g (.parse kind options)) ∧
      Session.Alike id s₁ s₂
        (s₁.handle g (.series kind options)) (s₂.handle g (.series kind options)) ∧
      Session.Alike id s₁ s₂
        (s₁.handle g (.commaList kind options)) (s₂.handle g (.commaList kind options)) := by
  have hlocal : ∀ p ∈ g.productions, p.Local := by
    rcases hg with rfl | rfl
    · exact Script.locals
    · exact Phrase.locals
  refine ⟨?_, ?_, ?_⟩
  · refine Session.alike_of_local hlocal hahead hsettings hdepth (fun d => .parse kind options) ?_
    rintro d id _ new ⟨rfl, -⟩
    rfl
  · refine Session.alike_of_local hlocal hahead hsettings hdepth (fun d => .series kind options) ?_
    rintro d found _ new ⟨rfl, -⟩
    rfl
  · refine Session.alike_of_local hlocal hahead hsettings hdepth
      (fun d => .commaList kind options) ?_
    rintro d found _ new ⟨rfl, -⟩
    rfl

/-- A script behind its first equals sign, with a name parsed and the end of it marked. -/
private def assigning : Session :=
  (Session.run Script.grammar (do
    let _ ← .takeThisWord (some "let")
    let _ ← .parse "Identifier" none
    let _ ← .act .setMark
    .dropSpace
    let _ ← .take (.literal "=") none
    .dropSpace) (.ofText "let a = f(b, 1);" Script.grammar)).2

/-- An expression inside a script, and the same expression on its own. -/
theorem Grammar.parsing_local_call :
    let s := Session.ofText "f(b, 1);" Script.grammar
    assigning.tree.size = 1 ∧ assigning.cursor.mark = some ⟨5⟩ ∧ assigning.cursor.offset = 8 ∧
      (s.handle Script.grammar (.parse "Expression" none)).2.tree.size = 8 ∧
      Session.Alike (fun id => [id]) s assigning
        (s.handle Script.grammar (.parse "Expression" none))
        (assigning.handle Script.grammar (.parse "Expression" none)) := by
  intro s
  have hahead : s.cursor.ahead = assigning.cursor.ahead := by decide +kernel
  have hsettings : s.cursor.settings = assigning.cursor.settings := by decide +kernel
  have hdepth : s.depth = assigning.depth := by decide +kernel
  refine ⟨by decide +kernel, by decide +kernel, by decide +kernel, by decide +kernel, ?_⟩
  exact (parsing_local (.inl rfl) hahead hsettings hdepth "Expression" none).1

end Descent
