import Descent.Proofs.Session.Reading

/-!
# Repetitions that follow a reader

* `Turn`: what a round of a repetition reads;
* `Reader.many`: rounds for as long as there are more;
* `Reader.seriesTurn`, `Reader.commaTurn`: the rounds of the two repetitions of a session.

A repetition follows a reader if every round does and leaves less text than there was: then it never
runs out of rounds.
-/

namespace Descent

/-- What a round of a repetition reads: nothing, an element that is the last, or an element after
which there may be more. -/
inductive Turn (α : Type)
  | stop
  | last (x : α)
  | next (x : α)

namespace Reader

variable {α : Type}

/-- Reads rounds for as long as there are more. Every round has to leave less text. -/
def many (turn : Reader (Turn α)) (cs : List Char) : Option (List α × List Char) :=
  match turn cs with
  | none => none
  | some (.stop, rest) => some ([], rest)
  | some (.last x, rest) => some ([x], rest)
  | some (.next x, rest) =>
    if rest.length < cs.length then
      (many turn rest).map fun (xs, rest) => (x :: xs, rest)
    else none
termination_by cs.length

section
variable {turn : Reader (Turn α)} {cs rest : List Char} {x : α} {xs : List α}

theorem many_of_stop (h : turn cs = some (.stop, rest)) : many turn cs = some ([], rest) := by
  rw [many, h]

theorem many_of_last (h : turn cs = some (.last x, rest)) : many turn cs = some ([x], rest) := by
  rw [many, h]

theorem many_of_next (h : turn cs = some (.next x, rest)) (hlt : rest.length < cs.length) :
    many turn cs = (many turn rest).map fun (xs, rest) => (x :: xs, rest) := by
  rw [many, h]
  exact if_pos hlt

/-- What holds after the last round and is kept by each round before holds of all that is read. -/
theorem many_induct {P : List Char → List α → List Char → Prop}
    (stop : ∀ {cs rest}, turn cs = some (.stop, rest) → P cs [] rest)
    (last : ∀ {cs x rest}, turn cs = some (.last x, rest) → P cs [x] rest)
    (next : ∀ {cs x tail xs rest}, turn cs = some (.next x, tail) → P tail xs rest →
      P cs (x :: xs) rest) (h : many turn cs = some (xs, rest)) : P cs xs rest := by
  fun_induction many turn cs generalizing xs with
  | case1 => cases h
  | case2 cs rest hturn =>
    cases h
    exact stop hturn
  | case3 cs x rest hturn =>
    cases h
    exact last hturn
  | case4 cs x tail hturn hlt ih =>
    obtain ⟨⟨xs, rest⟩, hmany, heq⟩ := Option.map_eq_some_iff.1 h
    cases heq
    exact next hturn (ih hmany)
  | case5 => cases h

end

/-- A round of a series: an element after any space, or nothing, and then the space stays. -/
def seriesTurn (read : Reader α) (starts : List Char → Bool) : Reader (Turn α) := fun cs =>
  if starts (cs.dropWhile Text.isSpace) then
    (read (cs.dropWhile Text.isSpace)).map fun (x, rest) => (.next x, rest)
  else some (.stop, cs)

/-- A round of a comma-separated list: an element with space around it, and perhaps a comma. -/
def commaTurn (read : Reader α) : Reader (Turn α) := fun cs =>
  (read (cs.dropWhile Text.isSpace)).map fun (x, rest) =>
    match literalSpan? "," (rest.dropWhile Text.isSpace) with
    | some (_, rest) => (.next x, rest)
    | none => (.last x, rest.dropWhile Text.isSpace)

section
variable {read : Reader α} {cs rest : List Char} {turn : Turn α}

theorem seriesTurn_cases {starts : List Char → Bool}
    (h : read.seriesTurn starts cs = some (turn, rest)) :
    (turn = .stop ∧ rest = cs) ∨
      ∃ x, turn = .next x ∧ read (cs.dropWhile Text.isSpace) = some (x, rest) := by
  unfold seriesTurn at h
  split at h
  · obtain ⟨⟨x, r⟩, hx, heq⟩ := Option.map_eq_some_iff.1 h
    cases heq
    exact .inr ⟨x, rfl, hx⟩
  · cases h
    exact .inl ⟨rfl, rfl⟩

theorem commaTurn_cases (h : read.commaTurn cs = some (turn, rest)) :
    ∃ x r, read (cs.dropWhile Text.isSpace) = some (x, r) ∧
      ((turn = .next x ∧ ',' :: rest = r.dropWhile Text.isSpace) ∨
        (turn = .last x ∧ rest = r.dropWhile Text.isSpace)) := by
  obtain ⟨⟨x, r⟩, hx, heq⟩ := Option.map_eq_some_iff.1 h
  refine ⟨x, r, hx, ?_⟩
  simp only at heq
  split at heq
  next hcomma =>
    cases heq
    exact .inl ⟨rfl, append_of_literalSpan? hcomma⟩
  next =>
    cases heq
    exact .inr ⟨rfl, rfl⟩

end

/-- A reader leaves less text than there was. -/
def Shrinks (read : Reader α) : Prop :=
  ∀ {cs x rest}, read cs = some (x, rest) → rest.length < cs.length

theorem Shrinks.deeper {read : Reader α} (h : read.Shrinks) (levels : Nat) :
    (deeper levels read).Shrinks := by
  cases levels with
  | zero => nofun
  | succ levels => exact h

section
variable {read : Reader α} {cs rest : List Char} {x : α} (h : read.Shrinks)
include h

theorem Shrinks.seriesTurn {starts : List Char → Bool}
    (hturn : read.seriesTurn starts cs = some (.next x, rest)) : rest.length < cs.length := by
  obtain ⟨⟨⟩, -⟩ | ⟨y, ⟨⟩, hy⟩ := seriesTurn_cases hturn
  exact Nat.lt_of_lt_of_le (h hy) (cs.dropWhile_suffix _).length_le

theorem Shrinks.commaTurn (hturn : read.commaTurn cs = some (.next x, rest)) :
    rest.length < cs.length := by
  obtain ⟨y, r, hy, ⟨⟨⟩, hcomma⟩ | ⟨⟨⟩, -⟩⟩ := commaTurn_cases hturn
  have hr := Nat.lt_of_lt_of_le (h hy) (cs.dropWhile_suffix _).length_le
  have hle := (r.dropWhile_suffix Text.isSpace).length_le
  rw [← hcomma, List.length_cons] at hle
  omega

end

end Reader

namespace Session

variable {g : Grammar} {levels : Nat} {s : Session} {α : Type} {kind : String}
  {options : Options} {read : Reader α} {json : α → Json} {text : α → Options → String}
  {p : Production}

/-- Nodes of a tree with their JSON and source texts. -/
def ShowsAll (g : Grammar) (t : Tree) (json : α → Json) (text : α → Options → String) :
    List NodeId → List α → Prop :=
  List.Forall₂ fun id x => g.Shows t id (json x) (text x)

/-- Nodes shown one by one are shown together. -/
theorem json_of_showsAll {t : Tree} {ids : List NodeId} {xs : List α}
    (h : ShowsAll g t json text ids xs) :
    ids.map t.json = xs.map json ∧
      ∀ options, ids.map (g.write t · options) = xs.map (text · options) := by
  induction h with
  | nil => exact ⟨rfl, fun _ => rfl⟩
  | cons hx _ ih =>
    refine ⟨by rw [List.map_cons, List.map_cons, hx.json_eq, ih.1], fun options => ?_⟩
    rw [List.map_cons, List.map_cons, hx.write_eq, ih.2]

/-- A round of a session has read the same as a turn of a reader. -/
inductive RoundAgrees (g : Grammar) (json : α → Json) (text : α → Options → String) (s : Session)
    (rest : List Char) (s' : Session) : Round → Turn α → Prop
  | stop : s.Comes rest [] s' → RoundAgrees g json text s rest s' .stop .stop
  | last {id x} : s.Comes rest [id] s' → g.Shows s'.tree id (json x) (text x) →
      RoundAgrees g json text s rest s' (.last id) (.last x)
  | next {id x} : s.Comes rest [id] s' → g.Shows s'.tree id (json x) (text x) →
      RoundAgrees g json text s rest s' (.next id) (.next x)

theorem agrees_collect {round : Session → Outcome Session Round} {turn : Reader (Turn α)}
    (hround : ∀ s, s.Ready g levels → Agrees (round s) (turn s.cursor.ahead)
      fun r x s' => RoundAgrees g json text s x.2 s' r x.1)
    (hnext : ∀ {cs x rest}, turn cs = some (.next x, rest) → rest.length < cs.length)
    (found : List NodeId) {fuel : Nat} (s : Session) (hs : s.Ready g levels)
    (hfuel : s.cursor.ahead.length < fuel) :
    Agrees (collect round found fuel s) (Reader.many turn s.cursor.ahead)
      fun all x s' => ∃ ids, all = found.reverse ++ ids ∧ s.Comes x.2 ids s' ∧
        ShowsAll g s'.tree json text ids x.1 := by
  induction fuel generalizing found s with
  | zero => exact absurd hfuel (Nat.not_lt_zero _)
  | succ fuel ih =>
    have hr := hround s hs
    rw [Reader.many]
    unfold collect
    rcases hturn : turn s.cursor.ahead with _ | ⟨t, rest⟩
    · rw [hturn] at hr
      obtain ⟨e, s', hrun⟩ := hr
      rw [hrun]
      exact ⟨_, _, rfl⟩
    · rw [hturn] at hr
      obtain ⟨r, s', hrun, hrounds⟩ := hr
      rw [hrun]
      cases hrounds with
      | stop hcomes => exact ⟨_, _, rfl, [], by simp, hcomes, .nil⟩
      | last hcomes hshows => exact ⟨_, _, rfl, [_], by simp, hcomes, .cons hshows .nil⟩
      | @next id x hcomes hshows =>
        have hlt := hnext hturn
        have hahead : s'.cursor.ahead = rest := hcomes.ahead
        have hrec := ih (id :: found) s' (hcomes.ready hs) (by rw [hahead]; omega)
        simp only [hlt, if_true]
        rw [hahead] at hrec
        rcases hmany : Reader.many turn rest with _ | ⟨xs, rest'⟩
        · rw [hmany] at hrec
          exact hrec
        · rw [hmany] at hrec
          obtain ⟨all, s'', hcollect, ids, rfl, hcomes', hall⟩ := hrec
          exact ⟨_, _, hcollect, id :: ids, by simp, hcomes.trans hcomes',
            .cons (hshows.keeps hcomes'.keeps) hall⟩

theorem agrees_collectAll {round : Session → Outcome Session Round} {turn : Reader (Turn α)}
    (hround : ∀ s, s.Ready g levels → Agrees (round s) (turn s.cursor.ahead)
      fun r x s' => RoundAgrees g json text s x.2 s' r x.1)
    (hnext : ∀ {cs x rest}, turn cs = some (.next x, rest) → rest.length < cs.length)
    (hs : s.Ready g levels) :
    Agrees (collectAll round s) (Reader.many turn s.cursor.ahead)
      fun ids x s' => s.Comes x.2 ids s' ∧ ShowsAll g s'.tree json text ids x.1 := by
  refine (agrees_collect hround hnext [] s hs (by omega)).mono ?_
  rintro all x s' ⟨ids, rfl, hcomes, hall⟩
  exact ⟨hcomes, hall⟩

/-! ## The two repetitions -/

theorem handler_series (hp : g.find kind = .ok p) (options : Options) (s : Session) :
    g.handler levels (.series kind options) s =
      collectAll (g.seriesRound (inner g levels) p options) s := by
  rw [handler_eq_answer]
  simp only [Grammar.answer, Grammar.series, hp]
  rfl

theorem handler_commaList (hp : g.find kind = .ok p) (options : Options) (s : Session) :
    g.handler levels (.commaList kind options) s =
      collectAll (g.commaRound (inner g levels) p options) s := by
  rw [handler_eq_answer]
  simp only [Grammar.answer, Grammar.commaList, hp]
  rfl

section
variable (hp : g.find kind = .ok p) (hparses : Parses g levels kind options read json text)
include hp hparses

/-- The element of a round, parsed after any space. -/
private theorem agrees_spaced (hs : s.Ready g levels) :
    Agrees (p.parse (inner g levels) options { s with cursor := s.cursor.dropSpace })
      (read (s.cursor.ahead.dropWhile Text.isSpace)) fun id x s' =>
        s.Comes x.2 [id] s' ∧ g.Shows s'.tree id (json x.1) (text x.1) := by
  have hcomes := hs.comes s.cursor.dropSpace_movesTo
  have hparse := hparses (hcomes.ready hs) hcomes.ahead
  rw [handler_parse hp] at hparse
  exact hparse.mono fun id x s' h => ⟨hcomes.trans h.comes, h.shows⟩

private theorem agrees_commaRound (hstart : ∀ s : Session, ∃ b, g.seesStart p options s = .ok b ∧
      (b = false → read s.cursor.ahead = none)) (hs : s.Ready g levels) :
    Agrees (g.commaRound (inner g levels) p options s) (read.commaTurn s.cursor.ahead)
      fun r x s' => RoundAgrees g json text s x.2 s' r x.1 := by
  have hspaced := agrees_spaced hp hparses hs
  have hcomes := hs.comes s.cursor.dropSpace_movesTo
  obtain ⟨b, hb, hnone⟩ := hstart { s with cursor := s.cursor.dropSpace }
  unfold Grammar.commaRound Reader.commaTurn
  simp only [hb]
  cases b with
  | false =>
    rw [hcomes.ahead] at hnone
    rw [hnone rfl]
    exact ⟨_, _, rfl⟩
  | true =>
    simp only
    rcases hread : read (s.cursor.ahead.dropWhile Text.isSpace) with _ | ⟨x, rest⟩
    · rw [hread] at hspaced
      obtain ⟨e, s', hrun⟩ := hspaced
      rw [hrun]
      exact ⟨_, _, rfl⟩
    · rw [hread] at hspaced
      obtain ⟨id, s', hrun, hid, hshows⟩ := hspaced
      have hdropped := s'.cursor.dropSpace_movesTo
      rw [hid.ahead] at hdropped
      have hspans := spans_literal ","
      rw [hrun]
      simp only [Option.map_some]
      rcases hcomma : literalSpan? "," (rest.dropWhile Text.isSpace) with _ | ⟨l, r⟩
      · have htake := Cursor.take?_of_span_none hspans (hdropped.ahead ▸ hcomma)
        simp only [htake]
        exact ⟨_, _, rfl, .last ⟨hid.cursor.trans hdropped, hid.tree, hid.depth⟩ hshows⟩
      · obtain ⟨c, htake, hc⟩ := Cursor.take?_of_span_some hspans (hdropped.ahead ▸ hcomma)
        simp only [htake]
        exact ⟨_, _, rfl, .next ⟨hid.cursor.trans (hdropped.trans hc), hid.tree, hid.depth⟩ hshows⟩

private theorem agrees_seriesRound {starts : List Char → Bool}
    (hstart : ∀ s : Session, g.seesStart p options s = .ok (starts s.cursor.ahead))
    (hshrinks : read.Shrinks) (hs : s.Ready g levels) :
    Agrees (g.seriesRound (inner g levels) p options s)
      (read.seriesTurn starts s.cursor.ahead)
      fun r x s' => RoundAgrees g json text s x.2 s' r x.1 := by
  have hspaced := agrees_spaced hp hparses hs
  have hsees := hstart { s with cursor := s.cursor.dropSpace }
  rw [(hs.comes s.cursor.dropSpace_movesTo).ahead] at hsees
  unfold Grammar.seriesRound Reader.seriesTurn
  simp only [hsees]
  cases starts (s.cursor.ahead.dropWhile Text.isSpace) with
  | false =>
    exact ⟨_, _, rfl, .stop (hs.comes s.cursor.dropSpace_movesTo.moveTo)⟩
  | true =>
    simp only [if_true]
    rcases hread : read (s.cursor.ahead.dropWhile Text.isSpace) with _ | ⟨x, rest⟩
    · rw [hread] at hspaced
      obtain ⟨e, s', hrun⟩ := hspaced
      rw [hrun]
      exact ⟨_, _, rfl⟩
    · rw [hread] at hspaced
      obtain ⟨id, s', hrun, hid, hshows⟩ := hspaced
      have hmoved : s'.cursor.offset ≠ s.cursor.dropSpace.offset := by
        rw [Ne, hid.cursor.offset_eq_iff s.cursor.dropSpace_movesTo]
        rintro rfl
        exact Nat.lt_irrefl _ (hshrinks hread)
      rw [hrun]
      simp only [if_neg hmoved]
      exact ⟨_, _, rfl, .next hid hshows⟩

variable {cs : List Char} (hshrinks : read.Shrinks) (hs : s.Ready g levels)
  (hahead : s.cursor.ahead = cs)
include hshrinks hs hahead

theorem agrees_commaList (hstart : ∀ s : Session, ∃ b, g.seesStart p options s = .ok b ∧
      (b = false → read s.cursor.ahead = none)) :
    Agrees ((Program.commaList kind options).run (g.handler levels) s) (read.commaTurn.many cs)
      fun ids x s' => s.Comes x.2 ids s' ∧ ShowsAll g s'.tree json text ids x.1 := by
  subst hahead
  rw [show (Program.commaList kind options).run (g.handler levels) s = _ from
    handler_commaList hp options s]
  exact agrees_collectAll (fun s hs => agrees_commaRound hp hparses hstart hs) hshrinks.commaTurn hs

theorem agrees_series {starts : List Char → Bool}
    (hstart : ∀ s : Session, g.seesStart p options s = .ok (starts s.cursor.ahead)) :
    Agrees ((Program.series kind options).run (g.handler levels) s)
      ((read.seriesTurn starts).many cs)
      fun ids x s' => s.Comes x.2 ids s' ∧ ShowsAll g s'.tree json text ids x.1 := by
  subst hahead
  rw [show (Program.series kind options).run (g.handler levels) s = _ from
    handler_series hp options s]
  exact agrees_collectAll (fun s hs => agrees_seriesRound hp hparses hstart hshrinks hs)
    hshrinks.seriesTurn hs

end

end Session
end Descent
