import Mathlib.Data.List.TakeWhile
import Descent.Proofs.Cursor.Run
import Descent.Proofs.Session.Advance
import Descent.Proofs.Session.History
import Descent.Proofs.Session.Success

/-!
# Rounds and elements

* `Text.PastSpace`: the first offset at or after another at which a text does not go on with space;
* `Session.Goes`: rounds that go on, with the elements that they find;
* `Session.Ends`: what a repetition comes to when nothing limits its rounds;
* `Session.Repeats`: an outcome is what a repetition comes to, if that is not given up;
* `Grammar.FindsNodes`: what elements that are found one after the other do to a tree;
* `Grammar.Element`: an element, where it is parsed and where its parse comes back;
* `Grammar.Forward`: no element comes back in front of where its parse began;
* `Grammar.PassesUp`: a failure that is not one of the repetition itself.

A session limits the rounds of a repetition, and the limit makes no difference to one that ends
before it (`repeats_collectAll`). Each element is a node behind all those before it, which stay as
they are, so what is true of an element when it is found is true of it at the end.
-/

namespace Descent

/-! ## Space in a text -/

/-- The first offset of a text at or after another at which there is no more space. -/
def Text.PastSpace (text : List Char) (i j : Nat) : Prop :=
  ∃ l m r, l ++ (m ++ r) = text ∧ Text.size l = i ∧ Text.size (l ++ m) = j ∧
    (∀ c ∈ m, Text.isSpace c) ∧ Stops Text.isSpace r

namespace Cursor

variable {c c' : Cursor}

theorem stops_dropSpace (c : Cursor) : Stops Text.isSpace c.dropSpace.ahead := by
  rw [c.dropSpace_movesTo.ahead]
  intro d hd
  have hhead := List.head?_dropWhile_not Text.isSpace c.ahead
  rw [Option.mem_def.1 hd] at hhead
  simpa using hhead

theorem behind_dropSpace (c : Cursor) :
    c.dropSpace.behind.reverse = c.behind.reverse ++ c.ahead.takeWhile Text.isSpace := by
  have htext : c.dropSpace.behind.reverse ++ c.dropSpace.ahead = c.behind.reverse ++ c.ahead :=
    c.dropSpace_movesTo.text
  refine List.append_cancel_right (htext.trans ?_)
  rw [c.dropSpace_movesTo.ahead, List.append_assoc, List.takeWhile_append_dropWhile]

theorem pastSpace_dropSpace (c : Cursor) :
    Text.PastSpace c.text c.offset c.dropSpace.offset := by
  refine ⟨c.behind.reverse, c.ahead.takeWhile Text.isSpace, c.dropSpace.ahead, ?_,
    Text.size_reverse _, ?_, fun d => List.mem_takeWhile_imp, c.stops_dropSpace⟩
  · rw [c.dropSpace_movesTo.ahead, List.takeWhile_append_dropWhile]
    rfl
  · rw [← behind_dropSpace, Text.size_reverse]
    rfl

/-- The space that was passed is given back. -/
theorem moveTo_dropSpace (c : Cursor) : c.dropSpace.moveTo c.offset = c := by
  have hcut : c.behind.reverse ++ c.ahead = c.dropSpace.text := c.dropSpace_movesTo.text.symm
  have hoffset : c.offset = Text.size c.behind.reverse := (Text.size_reverse _).symm
  rw [hoffset, moveTo_size hcut]
  simp [dropSpace, takeWhile, forward, place]

/-- A cursor no further back in a text has no more of it ahead. -/
theorem ahead_suffix (htext : c'.text = c.text) (h : c.offset ≤ c'.offset) :
    c'.ahead <:+ c.ahead := by
  have hcut : c.behind.reverse ++ c.ahead = c'.behind.reverse ++ c'.ahead := htext.symm
  obtain ⟨m, -, hahead⟩ := Text.append_eq_append_of_size_le hcut (by
    rw [Text.size_reverse, Text.size_reverse]
    exact h)
  exact ⟨m, hahead.symm⟩

end Cursor

/-! ## Rounds without a limit -/

namespace Session

/-- Rounds that go on from one session to another, and the elements that they find. -/
inductive Goes (round : Session → Outcome Session Round) :
    Session → List NodeId → Session → Prop
  | here {s : Session} : Goes round s [] s
  | next {s s₁ s' : Session} {id : NodeId} {ids : List NodeId} :
    round s = (.ok (.next id), s₁) → Goes round s₁ ids s' → Goes round s (id :: ids) s'

/-- What a repetition comes to when nothing limits it: some rounds go on, and then one does not. -/
inductive Ends (round : Session → Outcome Session Round) (s : Session) :
    Outcome Session (List NodeId) → Prop
  | stop {ids : List NodeId} {s₁ s' : Session} : Goes round s ids s₁ →
    round s₁ = (.ok .stop, s') → Ends round s (.ok ids, s')
  | last {ids : List NodeId} {id : NodeId} {s₁ s' : Session} : Goes round s ids s₁ →
    round s₁ = (.ok (.last id), s') → Ends round s (.ok (ids ++ [id]), s')
  | fail {ids : List NodeId} {e : Failure} {s₁ s' : Session} : Goes round s ids s₁ →
    round s₁ = (.error e, s') → Ends round s (.error e, s')

/-- A repetition goes on for more rounds than a session has patience for. -/
def Endures (round : Session → Outcome Session Round) (s : Session) : Prop :=
  ∃ ids s', Goes round s ids s' ∧ s.cursor.ahead.length + patience < ids.length

/-- An outcome is the one that a repetition comes to, or the repetition has been given up. -/
def Repeats (round : Session → Outcome Session Round) (s : Session)
    (o : Outcome Session (List NodeId)) : Prop :=
  (∀ o', Ends round s o' ↔ o' = o) ∨
    Endures round s ∧ o.1 = .error (.badState "a repetition does not end")

variable {round : Session → Outcome Session Round} {s s' s'' s₁ s₂ : Session} {id : NodeId}
  {ids ids' : List NodeId} {o o' : Outcome Session (List NodeId)}
  {answer : Except Failure (List NodeId)}

theorem Ends.next (hround : round s = (.ok (.next id), s₁)) (h : Ends round s₁ (answer, s')) :
    Ends round s (answer.map (id :: ·), s') := by
  cases h with
  | stop hgoes hstop => exact .stop (.next hround hgoes) hstop
  | last hgoes hlast => exact .last (.next hround hgoes) hlast
  | fail hgoes hfail => exact .fail (.next hround hgoes) hfail

/-- Rounds go on in one way only, as far as they do. -/
theorem Goes.unique (h : Goes round s ids s₁) (h' : Goes round s ids' s₂)
    (hs₁ : ∀ id s', round s₁ ≠ (.ok (.next id), s'))
    (hs₂ : ∀ id s', round s₂ ≠ (.ok (.next id), s')) : ids = ids' ∧ s₁ = s₂ := by
  induction h generalizing ids' with
  | here =>
    cases h' with
    | here => exact ⟨rfl, rfl⟩
    | next hround _ => exact absurd hround (hs₁ _ _)
  | next hround _ ih =>
    cases h' with
    | here => exact absurd hround (hs₂ _ _)
    | next hround' hrest' =>
      cases hround.symm.trans hround'
      obtain ⟨rfl, rfl⟩ := ih hrest' hs₁
      exact ⟨rfl, rfl⟩

/-- The round that a repetition ends with, and what has been found before. -/
private theorem Ends.exists_goes (h : Ends round s o) : ∃ ids s₁ x s', Goes round s ids s₁ ∧
    round s₁ = (x, s') ∧ (∀ id, x ≠ .ok (.next id)) ∧
    o = (x.map (ids ++ ·.found), s') := by
  cases h with
  | @stop ids s₁ s' hgoes hstop =>
    refine ⟨ids, s₁, _, s', hgoes, hstop, fun _ he => ?_, by simp [Except.map, Round.found]⟩
    cases he
  | @last ids id s₁ s' hgoes hlast =>
    refine ⟨ids, s₁, _, s', hgoes, hlast, fun _ he => ?_, rfl⟩
    cases he
  | @fail ids e s₁ s' hgoes hfail =>
    refine ⟨ids, s₁, _, s', hgoes, hfail, fun _ he => ?_, rfl⟩
    cases he

theorem Ends.unique (h : Ends round s o) (h' : Ends round s o') : o = o' := by
  obtain ⟨ids, s₁, x, s', hgoes, hround, hx, rfl⟩ := h.exists_goes
  obtain ⟨ids', s₁', x', s'', hgoes', hround', hx', rfl⟩ := h'.exists_goes
  obtain ⟨rfl, rfl⟩ := hgoes.unique hgoes'
    (fun id s he => hx id (congrArg Prod.fst (hround.symm.trans he)))
    (fun id s he => hx' id (congrArg Prod.fst (hround'.symm.trans he)))
  cases hround.symm.trans hround'
  rfl

/-- A limited repetition comes to what an unlimited one does, or it uses up its rounds. -/
theorem collect_cases (found : List NodeId) (fuel : Nat) (s : Session) :
    (∃ ids s', Goes round s ids s' ∧ ids.length = fuel ∧
      collect round found fuel s = (.error (.badState "a repetition does not end"), s')) ∨
    ∃ answer s', Ends round s (answer, s') ∧
      collect round found fuel s = (answer.map (found.reverse ++ ·), s') := by
  induction fuel generalizing found s with
  | zero => exact .inl ⟨[], s, .here, rfl, rfl⟩
  | succ fuel ih =>
    rw [collect]
    rcases hround : round s with ⟨e | _ | id | id, s₁⟩
    · exact .inr ⟨_, s₁, .fail .here hround, rfl⟩
    · exact .inr ⟨_, s₁, .stop .here hround, by simp [Except.map]⟩
    · exact .inr ⟨_, s₁, .last .here hround, by simp [Except.map]⟩
    · obtain ⟨ids, s', hgoes, hlength, hcollect⟩ | ⟨answer, s', hends, hcollect⟩ :=
        ih (id :: found) s₁
      · exact .inl ⟨id :: ids, s', .next hround hgoes, by rw [List.length_cons, hlength], hcollect⟩
      · refine .inr ⟨_, s', hends.next hround, hcollect.trans ?_⟩
        cases answer <;> simp [Except.map]

/-- The limit of a session makes no difference to a repetition that ends before it. -/
theorem repeats_collectAll (round : Session → Outcome Session Round) (s : Session) :
    Repeats round s (collectAll round s) := by
  obtain ⟨ids, s', hgoes, hlength, hcollect⟩ | ⟨answer, s', hends, hcollect⟩ :=
    collect_cases [] (s.cursor.ahead.length + 1 + patience) s
  · refine .inr ⟨⟨ids, s', hgoes, by omega⟩, ?_⟩
    rw [collectAll, hcollect]
  · have hanswer : collectAll round s = (answer, s') := by
      rw [collectAll, hcollect]
      cases answer <;> rfl
    refine .inl fun o => ⟨fun ho => ho.unique (hanswer ▸ hends), ?_⟩
    rintro rfl
    rwa [hanswer]

theorem Repeats.ends (h : Repeats round s o) (hend : ¬Endures round s) : Ends round s o := by
  obtain hends | ⟨hendures, -⟩ := h
  · exact (hends o).2 rfl
  · exact absurd hendures hend

theorem Goes.stays (hround : ∀ s : Session, s.Stays (round s).2) (h : Goes round s ids s') :
    s.Stays s' := by
  induction h with
  | here => exact .refl _
  | @next s s₁ s' id ids hnext _ ih =>
    have hs := hround s
    rw [hnext] at hs
    exact hs.trans ih

/-- The sessions that the rounds lead through. -/
theorem Goes.exists_path (h : Goes round s ids s') : ∃ path : Nat → Session,
    path 0 = s ∧ path ids.length = s' ∧ ∀ j id, ids[j]? = some id →
      round (path j) = (.ok (.next id), path (j + 1)) ∧
      Goes round s (ids.take j) (path j) ∧ Goes round (path (j + 1)) (ids.drop (j + 1)) s' := by
  induction h with
  | @here s => exact ⟨fun _ => s, rfl, rfl, fun j id hj => by cases hj⟩
  | @next s s₁ s' id ids hround hrest ih =>
    obtain ⟨path, rfl, rfl, hpath⟩ := ih
    refine ⟨fun j => j.casesOn s path, rfl, rfl, fun j id' hj => ?_⟩
    cases j with
    | zero =>
      cases hj
      exact ⟨hround, .here, hrest⟩
    | succ j =>
      obtain ⟨hnext, hbefore, hafter⟩ := hpath j id' hj
      exact ⟨hnext, .next hround hbefore, hafter⟩

/-- A measure that falls with every round bounds their number. -/
theorem Goes.length_add_le {P : Session → Prop} (measure : Session → Nat)
    (hround : ∀ {s id s'}, P s → round s = (.ok (.next id), s') → P s' ∧ measure s' < measure s)
    (h : Goes round s ids s') (hs : P s) : ids.length + measure s' ≤ measure s := by
  induction h with
  | here => exact Nat.le_of_eq (Nat.zero_add _)
  | next hnext _ ih =>
    obtain ⟨hs', hlt⟩ := hround hs hnext
    have := ih hs'
    rw [List.length_cons]
    omega

end Session

/-! ## Elements -/

namespace Grammar

open Session

variable {g : Grammar} {p : Production} {kind : String} {options : Options} {t t' t'' : Tree}
  {s s' : Session} {id : NodeId} {ids ids' : List NodeId}

/-- Nodes that have been found one after the other: each has a larger number than all before it,
and the nodes of the tree are settled. -/
structure FindsNodes (g : Grammar) (t : Tree) (ids : List NodeId) (t' : Tree) : Prop where
  reaches : g.Reaches t'
  settles : t.Settles t'
  increasing : ids.Pairwise (·.index < ·.index)
  new : ∀ id ∈ ids, t.size ≤ id.index ∧ id.index < t'.size

theorem FindsNodes.nil (h : g.Reaches t) : g.FindsNodes t [] t :=
  ⟨h, .refl t, .nil, nofun⟩

theorem FindsNodes.append (h : g.FindsNodes t ids t') (h' : g.FindsNodes t' ids' t'') :
    g.FindsNodes t (ids ++ ids') t'' where
  reaches := h'.reaches
  settles := h.settles.trans h'.settles
  increasing := by
    refine List.pairwise_append.2 ⟨h.increasing, h'.increasing, fun a ha b hb => ?_⟩
    exact Nat.lt_of_lt_of_le (h.new a ha).2 (h'.new b hb).1
  new id hid := by
    have hle := h.settles.size_le
    have hle' := h'.settles.size_le
    rcases List.mem_append.1 hid with hid | hid
    · exact ⟨(h.new id hid).1, Nat.lt_of_lt_of_le (h.new id hid).2 hle'⟩
    · exact ⟨Nat.le_trans hle (h'.new id hid).1, (h'.new id hid).2⟩

section
variable {round : Session → Outcome Session Round}
  (hround : ∀ {s x s'}, round s = (.ok x, s') → g.Reaches s.tree →
    g.FindsNodes s.tree x.found s'.tree)
include hround

theorem findsNodes_of_goes (hgoes : Goes round s ids s') (h : g.Reaches s.tree) :
    g.FindsNodes s.tree ids s'.tree := by
  induction hgoes with
  | here => exact .nil h
  | next hnext _ ih =>
    have hfinds := hround hnext h
    exact hfinds.append (ih hfinds.reaches)

/-- The sessions between the rounds: they are about one text, and what is found when a round goes on
is settled. -/
theorem exists_path_of_goes (hstays : ∀ s : Session, s.Stays (round s).2)
    (hgoes : Goes round s ids s') (h : g.Reaches s.tree) :
    ∃ path : Nat → Session, path 0 = s ∧ path ids.length = s' ∧ ∀ j id, ids[j]? = some id →
      round (path j) = (.ok (.next id), path (j + 1)) ∧
      (path j).cursor.text = s.cursor.text ∧ g.Reaches (path j).tree ∧
      (path (j + 1)).tree.Settles s'.tree := by
  obtain ⟨path, hfirst, hlast, hpath⟩ := hgoes.exists_path
  refine ⟨path, hfirst, hlast, fun j id hj => ?_⟩
  obtain ⟨hnext, hbefore, hafter⟩ := hpath j id hj
  have hreaches := (findsNodes_of_goes hround hbefore h).reaches
  have hreaches' := (hround hnext hreaches).reaches
  exact ⟨hnext, (hbefore.stays hstays).text, hreaches,
    (findsNodes_of_goes hround hafter hreaches').settles⟩

theorem findsNodes_of_ends (hends : Ends round s (.ok ids, s')) (h : g.Reaches s.tree) :
    g.FindsNodes s.tree ids s'.tree := by
  cases hends with
  | stop hgoes hstop =>
    have hfinds := findsNodes_of_goes hround hgoes h
    simpa [Round.found] using hfinds.append (hround hstop hfinds.reaches)
  | last hgoes hlast =>
    have hfinds := findsNodes_of_goes hround hgoes h
    exact hfinds.append (hround hlast hfinds.reaches)

end

/-- A node that is parsed is found, at the place where its parse began. -/
theorem Reaches.findsNodes_parse (h : g.Reaches s.tree)
    (hparse : s.parse g kind options = (.ok id, s')) :
    g.FindsNodes s.tree [id] s'.tree ∧ s'.tree.ParsedAt kind id s.cursor.offset := by
  have hreaches : g.Reaches (s.parse g kind options).2.tree := .request s _ h
  have hsettles : s.tree.Settles (s.parse g kind options).2.tree := h.settles (.request s _)
  rw [hparse] at hreaches hsettles
  obtain ⟨p, below, fields, after, hp, -, hrun, rfl, -, htree⟩ := parse_ok hparse
  have hgrows := Program.run_rel (R := Session.Grows g) (fun _ => .of_tree_eq rfl)
    Session.Grows.trans (g.grows_handler below) (p.body options) { s with depth := s.depth + 1 }
  rw [hrun] at hgrows
  have hle : s.tree.size ≤ after.tree.size :=
    ((hgrows h.owned.1 h.owned.2).settles h.owned.1).size_le
  have hlt : after.tree.size < s'.tree.size := by
    rw [htree, Tree.size_append]
    exact Nat.lt_succ_self _
  refine ⟨⟨hreaches, hsettles, List.pairwise_singleton .., ?_⟩, parse_start hparse⟩
  rintro _ (_ | ⟨_, ⟨⟩⟩)
  exact ⟨hle, hlt⟩

/-- An element of a repetition: it is at the cursor of a session, its parse comes back in another,
and it is a node of a tree. -/
structure Element (g : Grammar) (kind : String) (p : Production) (options : Options) (t : Tree)
    (s : Session) (id : NodeId) (s' : Session) : Prop where
  seen : g.seesStart p options s = .ok true
  parsed : s.parse g kind options = (.ok id, s')
  node : t.ParsedAt kind id s.cursor.offset

theorem findsNodes_of_parse (hp : g.find kind = .ok p)
    (hparse : p.parse (some (handle g)) options s = (.ok id, s')) (h : g.Reaches s.tree) :
    g.FindsNodes s.tree [id] s'.tree :=
  (h.findsNodes_parse ((handle_parse hp options s).trans hparse)).1

/-- A parse behind space leaves the text as it was. -/
theorem stays_of_parse {answer : Except Failure NodeId}
    (hparse : s.spaced.parse g kind options = (answer, s')) : s.Stays s' := by
  have hs : s.spaced.Stays (s.spaced.parse g kind options).2 :=
    stays_handle g (.parse kind options) s.spaced
  rw [hparse] at hs
  exact s.stays_spaced.trans hs

/-- What is recognized and parsed is an element, whatever is done to the tree afterwards. -/
theorem Reaches.element (h : g.Reaches s.tree) (hsees : g.seesStart p options s = .ok true)
    (hparse : s.parse g kind options = (.ok id, s')) (hs : s'.tree.Settles t) :
    g.Element kind p options t s id s' :=
  ⟨hsees, hparse, hs.parsedAt (h.findsNodes_parse hparse).2⟩

theorem Element.settles (h : g.Element kind p options t s id s') (hs : t.Settles t') :
    g.Element kind p options t' s id s' :=
  ⟨h.seen, h.parsed, hs.parsedAt h.node⟩

/-- No element of a kind comes back in front of where its parse began. -/
def Forward (g : Grammar) (kind : String) (options : Options) : Prop :=
  ∀ ⦃s : Session⦄ ⦃id s'⦄, g.Reaches s.tree → s.parse g kind options = (.ok id, s') →
    s.cursor.offset ≤ s'.cursor.offset

/-- A repetition fails as its recognizer does, or as the parse of an element does. -/
def PassesUp (g : Grammar) (kind : String) (p : Production) (options : Options)
    (round : Session → Outcome Session Round) (s : Session) (e : Failure) (s' : Session) : Prop :=
  ∃ ids s₁, Goes round s ids s₁ ∧
    (g.seesStart p options s₁.spaced = .error e ∧ s' = s₁.spaced ∨
      g.seesStart p options s₁.spaced = .ok true ∧
        s₁.spaced.parse g kind options = (.error e, s'))

end Grammar
end Descent
