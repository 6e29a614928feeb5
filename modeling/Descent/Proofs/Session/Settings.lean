import Descent.Proofs.Session.Forward

/-!
# Settings do not change the meaning of a text

* `Session.under`: the same session with other settings;
* `Failure.contextless`: a failure without the lines around its place;
* `Resembles`: answers that are related, or failures that are the same but for those lines;
* `Session.Tracks`: an outcome under other settings, unless nesting was what failed and may go
  deeper now.

No local program looks at the settings. They are read where a parse begins, to compare the depth
with its limit, and where a message is made, for the number of lines that it shows. So a request
that does not fail for its nesting tracks itself under every larger limit (`tracksAll_handler`).
-/

namespace Descent

/-- A failure without the lines around its place. -/
def Failure.contextless : Failure → Failure
  | unexpected d => unexpected { d with context := "" }
  | tooDeep depth maxDepth d => tooDeep depth maxDepth { d with context := "" }
  | e => e

/-- Two answers are related, or both are failures, which are the same but for the lines around their
places. -/
def Resembles {α β : Type} (Q : α → β → Prop) : Except Failure α → Except Failure β → Prop
  | .ok a, .ok b => Q a b
  | .error e, .error e' => e'.contextless = e.contextless
  | _, _ => False

theorem Resembles.of_eq {α : Type} {x y : Except Failure α} (h : y = x) : Resembles Eq x y := by
  subst h
  cases y <;> rfl

theorem Resembles.mono {α β : Type} {Q Q' : α → β → Prop} {x : Except Failure α}
    {y : Except Failure β} (h : Resembles Q x y) (hQ : ∀ a b, Q a b → Q' a b) :
    Resembles Q' x y := by
  cases x <;> cases y
  · exact h
  · exact h
  · exact h
  · exact hQ _ _ h

/-! ## Cursors -/

namespace Cursor

variable (σ : Settings)

/-- The same cursor with other settings. -/
def under (c : Cursor) : Cursor :=
  { c with settings := σ }

variable (c : Cursor)

theorem scanned_under : (c.under σ).scanned = (c.scanned.1, c.scanned.2.under σ) := by
  have hrecalled : (c.under σ).recalled.filter (·.start == (c.under σ).offset) =
      c.recalled.filter (·.start == c.offset) := rfl
  unfold scanned
  rw [hrecalled]
  split <;> rfl

theorem moveTo?_under (offset : Nat) :
    (c.under σ).moveTo? offset = (c.moveTo? offset).map (under σ) := by
  cases h : c.moveTo? offset with
  | some moved =>
    obtain ⟨l, r, htext, hsize, rfl⟩ := moveTo?_eq_some_iff.1 h
    exact moveTo?_eq_some_iff.2 ⟨l, r, htext, hsize, rfl⟩
  | none =>
    cases h' : (c.under σ).moveTo? offset with
    | none => rfl
    | some moved =>
      obtain ⟨l, r, htext, hsize, rfl⟩ := moveTo?_eq_some_iff.1 h'
      have hmoved : c.moveTo? offset = some _ := moveTo?_eq_some_iff.2 ⟨l, r, htext, hsize, rfl⟩
      cases h.symm.trans hmoved

theorem moveTo_under (offset : Nat) : (c.under σ).moveTo offset = (c.moveTo offset).under σ := by
  rw [moveTo, moveTo, moveTo?_under]
  cases c.moveTo? offset <;> rfl

theorem goTo_under (offset : Nat) :
    (c.under σ).goTo offset = ((c.goTo offset).1, (c.goTo offset).2.under σ) := by
  rw [goTo, goTo, moveTo?_under]
  cases c.moveTo? offset <;> rfl

theorem take?_under (p : Pattern) :
    (c.under σ).take? p = ((c.take? p).1, (c.take? p).2.under σ) := by
  have hextent : p.extent? (c.under σ).ahead = p.extent? c.ahead := rfl
  unfold take?
  rw [hextent]
  rcases p.extent? c.ahead with e | _ | n <;> rfl

theorem takeWord_under : (c.under σ).takeWord = (c.takeWord.1, c.takeWord.2.under σ) := by
  unfold takeWord
  rw [scanned_under]
  simp only [moveTo_under]

/-- A local action does the same under other settings. -/
theorem perform_under {a : Action} (ha : a.isLocal) :
    Resembles Eq (c.perform a).1 ((c.under σ).perform a).1 ∧
      ((c.under σ).perform a).2 = (c.perform a).2.under σ := by
  cases a with
  | goTo | setMark | goToMark | position | window | diagnostic => cases ha
  | next | takeChar | takeChars | takeWhile | dropSpace => exact ⟨rfl, rfl⟩
  | sees p => exact ⟨.of_eq rfl, rfl⟩
  | seesWord expected =>
    cases expected with
    | none => exact ⟨rfl, rfl⟩
    | some expected =>
      simp only [perform, seesWord, scanned_under]
      exact ⟨rfl, trivial⟩
  | takeWord =>
    simp only [perform, takeWord_under]
    exact ⟨rfl, trivial⟩
  | take? p =>
    simp only [perform, take?_under]
    exact ⟨.of_eq rfl, trivial⟩
  | take p message =>
    simp only [perform, take, take?_under]
    rcases c.take? p with ⟨e | _ | matched, after⟩ <;> exact ⟨rfl, rfl⟩
  | takeThisWord expected =>
    simp only [perform, takeThisWord, takeWord_under]
    have hoffset : (c.under σ).offset = c.offset := rfl
    cases wordFault? expected c.takeWord.1 with
    | none => exact ⟨rfl, rfl⟩
    | some message =>
      simp only [hoffset, moveTo_under]
      exact ⟨rfl, trivial⟩
  | decode hex =>
    refine ⟨?_, rfl⟩
    rw [perform, perform, decode, decode]
    cases codePoint? hex <;> rfl
  | fail message => exact ⟨rfl, rfl⟩

end Cursor

/-! ## Sessions -/

theorem NodeId.shift_zero : NodeId.shift 0 = id :=
  funext fun _ => rfl

theorem Fields.shift_zero (fields : Fields) : fields.shift 0 = fields := by
  rw [shift_eq_map, NodeId.shift_zero]
  apply eq_of_entries_eq
  refine (List.map_congr_left fun entry _ => ?_).trans (List.map_id _)
  obtain ⟨name, _ | _ | ids⟩ := entry
  · rfl
  · rfl
  · exact congrArg (fun ids => (name, Field.list ids)) (List.map_id ids)

namespace Session

/-- The same session with other settings. -/
def under (σ : Settings) (s : Session) : Session :=
  { s with cursor := s.cursor.under σ }

variable {α β : Type} {ρ σ : Settings} {g : Grammar} {s s' : Session}

/-- An outcome under some settings goes with one under others: the answers are related, or the
failures are the same but for the lines that they show, and the sessions are left alike. Or nesting
was what failed, and the other settings allow more of it. -/
def Tracks (ρ σ : Settings) (Q : α → β → Prop) (o : Outcome Session α) (o' : Outcome Session β) :
    Prop :=
  Resembles Q o.1 o'.1 ∧ o.2.cursor.settings = ρ ∧ o'.2 = o.2.under σ ∨
    ρ.maxDepth < σ.maxDepth ∧ ∃ e, o.1 = .error e ∧ e.kind = .tooDeep

namespace Tracks

variable {Q : α → β → Prop} {o : Outcome Session α} {o' : Outcome Session β}

theorem ok {a : α} {b : β} (hq : Q a b) (hs : s.cursor.settings = ρ) :
    Tracks ρ σ Q (.ok a, s) (.ok b, s.under σ) :=
  .inl ⟨hq, hs, rfl⟩

theorem error {e e' : Failure} (he : e'.contextless = e.contextless)
    (hs : s.cursor.settings = ρ) : Tracks ρ σ Q (.error e, s) (.error e', s.under σ) :=
  .inl ⟨he, hs, rfl⟩

theorem deep {e : Failure} (hlt : ρ.maxDepth < σ.maxDepth) (he : e.kind = .tooDeep) :
    Tracks ρ σ Q (.error e, s) o' :=
  .inr ⟨hlt, e, rfl, he⟩

theorem cases (h : Tracks ρ σ Q o o') :
    (∃ a s b, o = (.ok a, s) ∧ o' = (.ok b, s.under σ) ∧ Q a b ∧ s.cursor.settings = ρ) ∨
    (∃ e s e', o = (.error e, s) ∧ o' = (.error e', s.under σ) ∧
      e'.contextless = e.contextless ∧ s.cursor.settings = ρ) ∨
    ∃ e s, o = (.error e, s) ∧ ρ.maxDepth < σ.maxDepth ∧ e.kind = .tooDeep := by
  obtain ⟨answer, s⟩ := o
  obtain ⟨answer', s'⟩ := o'
  rcases h with ⟨hanswer, hs, rfl⟩ | ⟨hlt, e, rfl, he⟩
  · rcases answer with e | a <;> rcases answer' with e' | b
    · exact .inr (.inl ⟨e, s, e', rfl, rfl, hanswer, hs⟩)
    · cases hanswer
    · cases hanswer
    · exact .inl ⟨a, s, b, rfl, rfl, hanswer, hs⟩
  · exact .inr (.inr ⟨e, s, rfl, hlt, he⟩)

theorem mono {Q' : α → β → Prop} (h : Tracks ρ σ Q o o') (hQ : ∀ a b, Q a b → Q' a b) :
    Tracks ρ σ Q' o o' := by
  rcases h.cases with ⟨a, s, b, rfl, rfl, hq, hs⟩ | ⟨e, s, e', rfl, rfl, he, hs⟩ |
    ⟨e, s, rfl, hlt, he⟩
  · exact .ok (hQ a b hq) hs
  · exact .error he hs
  · exact .deep hlt he

end Tracks

/-! ## Programs -/

/-- A handler answers under some settings as another does under others. -/
def TracksAll (ρ σ : Settings) (handle handle' : Handler) : Prop :=
  ∀ ⦃ids r r' A s⦄, Request.Corresponds 0 ids r r' A → s.cursor.settings = ρ →
    Tracks ρ σ (fun x x' => ∃ new, A x x' new) (handle r s) (handle' r' (s.under σ))

/-- A local program tracks itself. -/
theorem TracksAll.run {handle handle' : Handler} (hh : TracksAll ρ σ handle handle')
    {Q : List NodeId → α → α → Prop} {ids : List NodeId} {p p' : Program α}
    (hp : p.Local 0 Q ids p') (hs : s.cursor.settings = ρ) :
    Tracks ρ σ (fun a a' => ∃ ids, Q ids a a') (p.run handle s)
      (p'.run handle' (s.under σ)) := by
  induction hp generalizing s with
  | done hq => exact .ok ⟨_, hq⟩ hs
  | ask hr he he' _ ih =>
    rw [Program.run, Program.run]
    rcases (hh hr hs).cases with ⟨x, after, x', h, h', ⟨new, hx⟩, hafter⟩ |
      ⟨e, after, e', h, h', hsame, hafter⟩ | ⟨e, after, h, hlt, hdeep⟩
    · rw [h, h']
      exact ih hx hafter
    · rw [h, h']
      simp only [he, he']
      exact .error hsame hafter
    · rw [h]
      simp only [he]
      exact .deep hlt hdeep

/-- What answers one level deeper under some settings and under others. Where the levels of the
first end, the second has none either, unless they allow more. -/
inductive Deepens (ρ σ : Settings) : Option Handler → Option Handler → Prop
  | none : Deepens ρ σ none none
  | room {handle : Handler} : ρ.maxDepth < σ.maxDepth → Deepens ρ σ none (some handle)
  | some {handle handle' : Handler} : TracksAll ρ σ handle handle' →
    Deepens ρ σ (some handle) (some handle')

/-! ## Productions -/

section
variable (hle : ρ.maxDepth ≤ σ.maxDepth)
include hle

/-- A failure of nesting is the same if the limit is. -/
theorem tracks_tooDeep {Q : α → β → Prop} (hs : s.cursor.settings = ρ) :
    Tracks ρ σ Q (.error s.tooDeep, s) (.error (s.under σ).tooDeep, s.under σ) := by
  rcases Nat.lt_or_eq_of_le hle with hlt | heq
  · exact .deep hlt rfl
  · refine .error ?_ hs
    have hmax : (s.under σ).cursor.settings.maxDepth = s.cursor.settings.maxDepth :=
      heq.symm.trans (congrArg Settings.maxDepth hs.symm)
    rw [tooDeep, tooDeep, hmax]
    rfl

variable {p : Production} {inner inner' : Option Handler} (hi : Deepens ρ σ inner inner')
include hi

theorem tracks_parse (hp : p.Local) (options : Options) (hs : s.cursor.settings = ρ) :
    Tracks ρ σ Eq (p.parse inner options s) (p.parse inner' options (s.under σ)) := by
  unfold Production.parse
  by_cases hfull : s.depth ≥ s.cursor.settings.maxDepth
  · rw [if_pos hfull]
    split
    · exact tracks_tooDeep hle hs
    next hroom =>
      rcases Nat.lt_or_eq_of_le hle with hlt | heq
      · exact .deep hlt rfl
      · rw [hs, heq] at hfull
        exact absurd hfull hroom
  · have hroom : ¬(s.under σ).depth ≥ (s.under σ).cursor.settings.maxDepth := by
      rw [hs] at hfull
      exact fun h => hfull (Nat.le_trans hle h)
    rw [if_neg hfull, if_neg hroom]
    cases hi with
    | none => exact tracks_tooDeep hle hs
    | room hlt => exact .deep hlt rfl
    | @some handle handle' hh =>
      have hinside : ({ s with depth := s.depth + 1 } : Session).cursor.settings = ρ := hs
      have hunder : { s.under σ with depth := (s.under σ).depth + 1 } =
          ({ s with depth := s.depth + 1 } : Session).under σ := rfl
      simp only [hunder]
      rcases (hh.run (hp.body 0 options) hinside).cases with
        ⟨fields, after, _, h, h', ⟨ids, rfl, -⟩, hafter⟩ | ⟨e, after, e', h, h', hsame, hafter⟩ |
        ⟨e, after, h, hlt, hdeep⟩
      · rw [h, h']
        simp only [Fields.shift_zero]
        cases hgraft : after.tree.graft p.name (some s.cursor.offset) fields with
        | mk answer tree =>
          have hgraft' : (after.under σ).tree.graft p.name (some (s.under σ).cursor.offset) fields =
              (answer, tree) := hgraft
          simp only [hgraft']
          cases answer with
          | error e => exact .error rfl hafter
          | ok id => exact .ok rfl hafter
      · rw [h, h']
        exact .error hsame hafter
      · rw [h]
        exact .deep hlt hdeep

end

/-! ## Repetitions -/

section
variable (hg : ∀ p ∈ g.productions, p.Local)
include hg

theorem sees_under (s : Session) : g.sees (s.under σ) = g.sees s := by
  have hahead : (s.under σ).cursor.ahead = s.cursor.ahead := rfl
  funext q options
  rw [Grammar.sees, Grammar.sees, seesWithin_congr hg hahead]

variable {p : Production} (hp : p ∈ g.productions)
include hp

theorem seesStart_under (options : Options) (s : Session) :
    g.seesStart p options (s.under σ) = g.seesStart p options s := by
  have hahead : (s.under σ).cursor.ahead = s.cursor.ahead := rfl
  exact seesStart_congr hg hahead (hg p hp) options

variable (hle : ρ.maxDepth ≤ σ.maxDepth) {inner inner' : Option Handler}
  (hi : Deepens ρ σ inner inner')
include hle hi

theorem tracks_seriesRound (options : Options) (hs : s.cursor.settings = ρ) :
    Tracks ρ σ Eq (g.seriesRound inner p options s)
      (g.seriesRound inner' p options (s.under σ)) := by
  unfold Grammar.seriesRound
  simp only
  have hsees : g.seesStart p options (s.under σ).spaced = g.seesStart p options s.spaced :=
    seesStart_under hg hp options s.spaced
  have helement : Tracks ρ σ Eq (p.parse inner options s.spaced)
      (p.parse inner' options (s.under σ).spaced) :=
    tracks_parse (s := s.spaced) hle hi (hg p hp) options hs
  rw [hsees]
  rcases g.seesStart p options s.spaced with e | _ | _
  · exact .error rfl hs
  · have hback (s : Session) : s.spaced.cursor.moveTo s.cursor.offset = s.cursor :=
      s.cursor.moveTo_dropSpace
    rw [hback, hback]
    exact .ok rfl hs
  · rcases helement.cases with
      ⟨id, after, _, h, h', rfl, hafter⟩ | ⟨e, after, e', h, h', hsame, hafter⟩ |
      ⟨e, after, h, hlt, hdeep⟩
    · rw [h, h']
      have hoffset : (after.under σ).cursor.offset = (s.under σ).spaced.cursor.offset ↔
          after.cursor.offset = s.spaced.cursor.offset := Iff.rfl
      simp only [hoffset]
      split
      · exact .error rfl hafter
      · exact .ok rfl hafter
    · rw [h, h']
      exact .error hsame hafter
    · rw [h]
      exact .deep hlt hdeep

theorem tracks_commaRound (options : Options) (hs : s.cursor.settings = ρ) :
    Tracks ρ σ Eq (g.commaRound inner p options s) (g.commaRound inner' p options (s.under σ)) := by
  unfold Grammar.commaRound
  simp only
  have hsees : g.seesStart p options (s.under σ).spaced = g.seesStart p options s.spaced :=
    seesStart_under hg hp options s.spaced
  have helement : Tracks ρ σ Eq (p.parse inner options s.spaced)
      (p.parse inner' options (s.under σ).spaced) :=
    tracks_parse (s := s.spaced) hle hi (hg p hp) options hs
  rw [hsees]
  rcases g.seesStart p options s.spaced with e | _ | _
  · exact .error rfl hs
  · exact .error rfl hs
  · rcases helement.cases with
      ⟨id, after, _, h, h', rfl, hafter⟩ | ⟨e, after, e', h, h', hsame, hafter⟩ |
      ⟨e, after, h, hlt, hdeep⟩
    · rw [h, h']
      have hspaced' : (after.under σ).cursor.dropSpace = after.cursor.dropSpace.under σ := rfl
      simp only [hspaced', Cursor.take?_under]
      have htake := (after.cursor.dropSpace.take?_movesTo (.literal ",")).settings.trans hafter
      rcases ht : after.cursor.dropSpace.take? (.literal ",") with ⟨e | _ | matched, c⟩ <;>
        rw [ht] at htake
      · exact .error rfl htake
      · exact .ok rfl htake
      · exact .ok rfl htake
    · rw [h, h']
      exact .error hsame hafter
    · rw [h]
      exact .deep hlt hdeep

end

theorem tracks_collect {round round' : Session → Outcome Session Round}
    (hround : ∀ {s}, s.cursor.settings = ρ → Tracks ρ σ Eq (round s) (round' (s.under σ)))
    (found : List NodeId) (fuel : Nat) (hs : s.cursor.settings = ρ) :
    Tracks ρ σ Eq (collect round found fuel s) (collect round' found fuel (s.under σ)) := by
  induction fuel generalizing found s with
  | zero => exact .error rfl hs
  | succ fuel ih =>
    rw [collect, collect]
    rcases (hround hs).cases with ⟨x, after, _, h, h', rfl, hafter⟩ |
      ⟨e, after, e', h, h', hsame, hafter⟩ | ⟨e, after, h, hlt, hdeep⟩
    · rw [h, h']
      cases x with
      | stop => exact .ok rfl hafter
      | last id => exact .ok rfl hafter
      | next id => exact ih _ hafter
    · rw [h, h']
      exact .error hsame hafter
    · rw [h]
      exact .deep hlt hdeep

/-! ## Requests -/

section
variable (hg : ∀ p ∈ g.productions, p.Local) (hle : ρ.maxDepth ≤ σ.maxDepth)
include hg hle

theorem tracksAll_answer {inner inner' : Option Handler} (hi : Deepens ρ σ inner inner') :
    TracksAll ρ σ (g.answer inner) (g.answer inner') := by
  intro ids r r' A s hr hs
  have hlist (found : List NodeId) : found = found.map (NodeId.shift 0) := by
    rw [NodeId.shift_zero, List.map_id]
  cases hr with
  | @act a ha =>
    obtain ⟨hanswer, hcursor⟩ := s.cursor.perform_under σ ha
    refine .inl ⟨hanswer.mono ?_, (s.cursor.perform_settings a).trans hs, ?_⟩
    · rintro x _ rfl
      exact ⟨[], rfl, rfl⟩
    · exact congrArg (fun c => ({ s with cursor := c } : Session)) hcursor
  | sees q options =>
    have hsees : g.sees (s.under σ) q options = g.sees s q options :=
      congrFun (congrFun (sees_under hg s) q) options
    refine .inl ⟨(Resembles.of_eq hsees).mono ?_, hs, rfl⟩
    rintro x _ rfl
    exact ⟨[], rfl, rfl⟩
  | parse kind options =>
    simp only [Grammar.answer, Grammar.parse]
    cases hp : g.find kind with
    | error e => exact .error rfl hs
    | ok p =>
      have hmem := Grammar.mem_of_find hp
      exact (tracks_parse hle hi (hg p hmem) options hs).mono fun id _ h => ⟨[id], h.symm, rfl⟩
  | series kind options =>
    simp only [Grammar.answer, Grammar.series]
    cases hp : g.find kind with
    | error e => exact .error rfl hs
    | ok p =>
      have hmem := Grammar.mem_of_find hp
      refine (tracks_collect (tracks_seriesRound hg hmem hle hi options) [] _ hs).mono ?_
      rintro found _ rfl
      exact ⟨found, hlist found, rfl⟩
  | commaList kind options =>
    simp only [Grammar.answer, Grammar.commaList]
    cases hp : g.find kind with
    | error e => exact .error rfl hs
    | ok p =>
      have hmem := Grammar.mem_of_find hp
      refine (tracks_collect (tracks_commaRound hg hmem hle hi options) [] _ hs).mono ?_
      rintro found _ rfl
      exact ⟨found, hlist found, rfl⟩
  | @rewind id hid =>
    have htree : (s.under σ).tree.node? (id.shift 0) = s.tree.node? id := rfl
    simp only [Grammar.answer, rewind, htree]
    cases s.tree.node? id with
    | none => exact .error rfl hs
    | some node =>
      cases hstart : node.start with
      | none =>
        simp only [hstart]
        exact .error rfl hs
      | some start =>
        have hgo : (s.under σ).cursor.goTo start =
            ((s.cursor.goTo start).1, (s.cursor.goTo start).2.under σ) :=
          s.cursor.goTo_under σ start
        simp only [hstart, hgo]
        exact .inl ⟨(Resembles.of_eq rfl).mono fun _ _ _ => ⟨[], rfl⟩,
          (s.cursor.goTo_movesTo start).settings.trans hs, rfl⟩
  | state => exact .ok ⟨[], rfl, rfl⟩ hs

/-- Every request of local programs tracks itself under settings that allow as much nesting. -/
theorem tracksAll_handler {levels levels' : Nat} (hlevels : levels ≤ levels')
    (hmore : levels < levels' → ρ.maxDepth < σ.maxDepth) :
    TracksAll ρ σ (g.handler levels) (g.handler levels') := by
  induction levels generalizing levels' with
  | zero =>
    cases levels' with
    | zero => exact tracksAll_answer hg hle .none
    | succ levels' => exact tracksAll_answer hg hle (.room (hmore (Nat.succ_pos _)))
  | succ levels ih =>
    obtain ⟨levels', rfl⟩ : ∃ n, levels' = n + 1 := ⟨levels' - 1, by omega⟩
    refine tracksAll_answer hg hle (.some (ih ?_ fun hlt => hmore ?_))
    · omega
    · omega

/-- A request that is alike to itself, with equal answers only. -/
theorem tracks_handle {r : Request} {A : r.Answer → r.Answer → List NodeId → Prop}
    (hr : Request.Corresponds 0 [] r r A) (hA : ∀ {x x' new}, A x x' new → x = x')
    (hs : s.cursor.settings = ρ) : Tracks ρ σ Eq (s.handle g r) ((s.under σ).handle g r) := by
  have hhandler : TracksAll ρ σ (g.handler (ρ.maxDepth - s.depth))
      (g.handler (σ.maxDepth - s.depth)) :=
    tracksAll_handler hg hle (by omega) (by omega)
  rw [handle_eq_handler (congrArg (·.maxDepth - s.depth) hs)]
  exact (hhandler hr hs).mono fun x x' ⟨new, hx⟩ => hA hx

end

/-- Two outcomes are the same but for the settings of the session and the lines that failures
show. -/
structure SameUnder {α : Type} (σ : Settings) (o o' : Outcome Session α) : Prop where
  answer : o'.1.mapError Failure.contextless = o.1.mapError Failure.contextless
  session : o'.2 = o.2.under σ

theorem Tracks.same {α : Type} {o o' : Outcome Session α} (h : Tracks ρ σ Eq o o')
    (hdeep : (∀ e, o.1 = .error e → e.kind ≠ .tooDeep) ∨ ρ.maxDepth = σ.maxDepth) :
    SameUnder σ o o' := by
  rcases h.cases with ⟨a, s, _, rfl, rfl, rfl, -⟩ | ⟨e, s, e', rfl, rfl, hsame, -⟩ |
    ⟨e, s, rfl, hlt, he⟩
  · exact ⟨rfl, rfl⟩
  · exact ⟨congrArg Except.error hsame, rfl⟩
  · rcases hdeep with hshallow | heq
    · exact absurd he (hshallow e rfl)
    · exact absurd heq (Nat.ne_of_lt hlt)

end Session

open Session

/-- **Settings do not change the meaning of a text.** Whatever a session comes to when it parses a
node, a series or a list, it comes to the same under settings that allow as much nesting, unless it
fails for its nesting: the same nodes, or the same failure at the same place, and the same session
afterwards. Where both settings allow the same nesting this holds of every outcome, so the number of
lines of context shows in those lines only. -/
theorem Grammar.settings_keep_meaning {g : Grammar}
    (hg : g = Script.grammar ∨ g = Phrase.grammar) {s : Session} {σ : Settings}
    (hle : s.cursor.settings.maxDepth ≤ σ.maxDepth) (kind : String) (options : Options) :
    ∀ r ∈ [Request.parse kind options, .series kind options, .commaList kind options],
      (∀ e, (s.handle g r).1 = .error e → e.kind ≠ .tooDeep) ∨
          s.cursor.settings.maxDepth = σ.maxDepth →
        SameUnder σ (s.handle g r) ((s.under σ).handle g r) := by
  have hlocal := Grammar.locals hg
  intro r hr hdeep
  suffices htracks : Tracks s.cursor.settings σ Eq (s.handle g r) ((s.under σ).handle g r) from
    htracks.same hdeep
  have hlist {found found' : List NodeId} (h : found' = found.map (NodeId.shift 0)) :
      found = found' := by
    rw [h, NodeId.shift_zero, List.map_id]
  simp only [List.mem_cons, List.not_mem_nil, or_false] at hr
  rcases hr with rfl | rfl | rfl
  · exact tracks_handle hlocal hle (.parse kind options) (fun h => h.1.symm) rfl
  · exact tracks_handle hlocal hle (.series kind options) (fun h => hlist h.1) rfl
  · exact tracks_handle hlocal hle (.commaList kind options) (fun h => hlist h.1) rfl

/-- The second binding of a script has no value. What is said about it shows one line under some
settings and two under others, and is the same apart from that. -/
theorem Grammar.settings_keep_meaning_message :
    let s := (Session.ofText "let a = f(1);\nlet b = ;" Script.grammar).under ⟨1, 6⟩
    let σ : Settings := ⟨3, 1000⟩
    let o : Outcome Session NodeId := s.parse Script.grammar "Script" none
    let o' : Outcome Session NodeId := (s.under σ).parse Script.grammar "Script" none
    s.cursor.settings.maxDepth ≤ σ.maxDepth ∧ o.1.mapError Failure.kind = .error .unexpected ∧
      o.2.cursor.offset = 22 ∧ o.2.tree.size = 9 ∧ SameUnder σ o o' ∧
      o'.1.mapError Failure.text ≠ o.1.mapError Failure.text := by
  intro s σ o o'
  have hle : s.cursor.settings.maxDepth ≤ σ.maxDepth := by decide
  have hkind : o.1.mapError Failure.kind = .error .unexpected := by decide +kernel
  have hsame := settings_keep_meaning (.inl rfl) hle "Script" none _ (.head _) (.inl fun e he => by
    rw [show o.1 = .error e from he] at hkind
    rw [Except.error.inj hkind]
    exact nofun)
  exact ⟨hle, hkind, by decide +kernel, by decide +kernel, hsame, by decide +kernel⟩

end Descent
