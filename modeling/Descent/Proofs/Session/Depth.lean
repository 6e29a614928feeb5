import Descent.Proofs.Program.Grammars
import Descent.Proofs.Session.Faults
import Descent.Proofs.Session.Reading

/-!
# The depth of parses

* `Shallow`: an answer other than the failure that parses are nested too deep;
* `Production.Relays`: a production that never makes such a failure up;
* `Grammar.Outside`: the sessions between requests that no other request makes;
* `Grammar.Counted`: what the parses in progress say about one more.

A failure of nesting can be traced to the parse that was one too many (`During.exists_full`).
-/

namespace Descent

/-- An answer is no failure of nesting. -/
def Shallow {α : Type} (answer : Except Failure α) : Prop :=
  ∀ e, answer = .error e → e.kind ≠ .tooDeep

/-! ## Answers that are shallow -/

theorem Cursor.Refuses.shallow {c : Cursor} {a : Cursor.Action} {e : Failure} (h : c.Refuses a e) :
    e.kind ≠ .tooDeep := by
  intro hdeep
  cases h <;> cases hdeep

theorem Tree.Denies.shallow {e : Failure} (h : Tree.Denies e) : e.kind ≠ .tooDeep := by
  intro hdeep
  cases h <;> cases hdeep

theorem Grammar.Obscures.shallow {e : Failure} (h : Grammar.Obscures e) : e.kind ≠ .tooDeep := by
  intro hdeep
  cases h <;> cases hdeep

theorem Cursor.shallow_sees (c : Cursor) (p : Pattern) : Shallow (c.sees p) := by
  intro e he hdeep
  obtain ⟨message, rfl⟩ := sees_error he
  cases hdeep

theorem Session.shallow_rewind (s : Session) (id : NodeId) : Shallow (s.rewind id).1 := by
  intro e he hdeep
  rcases rewind_error he with ⟨message, rfl⟩ | ⟨kind, rfl⟩ <;> cases hdeep

theorem Session.tooDeep_eq (s : Session) {maxDepth : Nat}
    (hmax : s.cursor.settings.maxDepth = maxDepth) (hdepth : s.depth = maxDepth) :
    ∃ d, s.tooDeep = .tooDeep maxDepth maxDepth d ∧ d.position = s.cursor.position := by
  rw [tooDeep, hmax, hdepth]
  exact ⟨_, rfl, rfl⟩

/-! ## Relaying -/

/-- A program ends with a failure of nesting only if that is the answer to one of its requests, or
among the failures `seen` before. -/
def Program.Relays {α : Type} (seen : Failure → Prop) : Program α → Prop
  | done (.ok _) => True
  | done (.error e) => e.kind = .tooDeep → seen e
  | ask _ next =>
    (∀ answer, (next (.ok answer)).Relays seen) ∧
      ∀ e, (next (.error e)).Relays fun e' => e' = e ∨ seen e'

/-- A production makes no failure of nesting up. -/
structure Production.Relays (p : Production) : Prop where
  starts : ∀ {sees s options e}, p.starts sees s options = .error e → e.kind = .tooDeep →
    ∃ q options', sees q options' = .error e
  body : ∀ options, (p.body options).Relays fun _ => False

namespace Program

variable {α : Type} {seen : Failure → Prop}

/-- A local program passes on what fails. -/
theorem Local.relays {d : Nat} {Q : List NodeId → α → α → Prop} {ids : List NodeId}
    {p p' : Program α} (h : p.Local d Q ids p') : p.Relays seen := by
  induction h with
  | done => trivial
  | @ask ids r r' A next next' hr he _ _ ih =>
    refine ⟨fun x => ?_, fun e => ?_⟩
    · obtain ⟨x', new, hx⟩ := hr.exists_answer x
      exact ih hx
    · rw [he]
      exact fun _ => .inl rfl

/-- A run that ends with a failure of nesting has it from a request. -/
theorem Relays.exists_asks {handle : Handler} {p : Program α} (h : p.Relays seen) {s : Session}
    {e : Failure} (he : (p.run handle s).1 = .error e) (hdeep : e.kind = .tooDeep) :
    seen e ∨ ∃ r s', p.Asks handle s r s' ∧ (handle r s').1 = .error e := by
  induction p generalizing seen s with
  | done result =>
    cases he
    exact .inl (h hdeep)
  | ask request next ih =>
    rw [run] at he
    have hlater {r s'} (hasks : (next (handle request s).1).Asks handle (handle request s).2 r s') :
        (ask request next).Asks handle s r s' := .later hasks
    have hfirst : (ask request next).Asks handle s request s := .first
    rcases hanswer : handle request s with ⟨answer, after⟩
    rw [hanswer] at he hlater
    cases answer with
    | ok a =>
      rcases ih _ (h.1 a) he with hseen | ⟨r, s', hasks, hr⟩
      · exact .inl hseen
      · exact .inr ⟨r, s', hlater hasks, hr⟩
    | error e' =>
      rcases ih _ (h.2 e') he with (rfl | hseen) | ⟨r, s', hasks, hr⟩
      · exact .inr ⟨request, s, hfirst, congrArg Prod.fst hanswer⟩
      · exact .inl hseen
      · exact .inr ⟨r, s', hlater hasks, hr⟩

end Program

theorem Production.Local.relays {p : Production} (h : p.Local) : p.Relays where
  starts {sees s options e} he hdeep := by
    rcases h.starts_error he with ⟨q, hq⟩ | hsees
    · exact absurd hdeep (s.cursor.shallow_sees q e hq)
    · exact hsees
  body options := (h.body 0 options).relays

/-! ## Where failures of nesting come from -/

namespace Grammar

open Session

variable {g : Grammar} {s₀ s s' : Session} {r₀ r : Request} {p : Production} {options : Options}
  {parses : List Production} {e : Failure}

/-- A parse that fails for its nesting is one too many itself, or its program fails so. -/
theorem full_or_run_of_parse
    (he : (p.parse (some (handle g)) options s).1 = .error e) (hdeep : e.kind = .tooDeep) :
    (s.cursor.settings.maxDepth ≤ s.depth ∧ e = s.tooDeep) ∨
      (s.depth < s.cursor.settings.maxDepth ∧
        ((p.body options).run (handle g) { s with depth := s.depth + 1 }).1 = .error e) := by
  rcases p.parse_error (Prod.ext he rfl) with
    ⟨hfull | hnone, rfl, -⟩ | ⟨handle, after, hroom, hhandle, -, hrun | hdenies⟩
  · exact .inl ⟨hfull, rfl⟩
  · cases hnone
  · cases hhandle
    exact .inr ⟨hroom, congrArg Prod.fst hrun⟩
  · exact absurd hdeep hdenies.shallow

/-- A repetition that fails for its nesting does so in one of its rounds. -/
theorem exists_turns_of_collect {round : Session → Outcome Session Round}
    (he : collectAll round s = (.error e, s')) (hdeep : e.kind = .tooDeep) :
    ∃ s₁, Turns round (s.cursor.ahead.length + 1 + patience) s s₁ ∧ (round s₁).1 = .error e := by
  rcases collect_error he with rfl | ⟨s', hturns, hs'⟩
  · cases hdeep
  · exact ⟨s', hturns, congrArg Prod.fst hs'⟩

section
variable (relays : ∀ p ∈ g.productions, p.Relays)
include relays

theorem shallow_seesWithin (s : Session) (fuel : Nat) (q : Pattern) (options : Options) :
    Shallow (g.seesWithin s fuel q options) := by
  intro e he
  refine seesWithin_induct Obscures.shallow (fun {p sees options e} hp h => ?_) he
  by_cases hdeep : e.kind = .tooDeep
  · exact .inr ((relays p hp).starts h hdeep)
  · exact .inl hdeep

theorem shallow_seesStart (hp : p ∈ g.productions) (options : Options) (s : Session) :
    Shallow (g.seesStart p options s) := by
  intro e he hdeep
  obtain ⟨q, options', hq⟩ := (relays p hp).starts he hdeep
  exact shallow_seesWithin relays s _ q options' e hq hdeep

/-- A round of a series that fails for its nesting does so in a parse. -/
theorem parse_of_seriesRound (hp : p ∈ g.productions)
    (he : (g.seriesRound (some (handle g)) p options s).1 = .error e) (hdeep : e.kind = .tooDeep) :
    g.seesStart p options s.spaced = .ok true ∧
      (p.parse (some (handle g)) options s.spaced).1 = .error e := by
  rcases seriesRound_error (Prod.ext he rfl) with
    ⟨hsees, -⟩ | ⟨hstart, hparse | ⟨id, -, -, rfl⟩⟩
  · exact absurd hdeep (shallow_seesStart relays hp options s.spaced e hsees)
  · exact ⟨hstart, congrArg Prod.fst hparse⟩
  · cases hdeep

/-- A round of a list that fails for its nesting does so in a parse. -/
theorem parse_of_commaRound (hp : p ∈ g.productions)
    (he : (g.commaRound (some (handle g)) p options s).1 = .error e) (hdeep : e.kind = .tooDeep) :
    g.seesStart p options s.spaced = .ok true ∧
      (p.parse (some (handle g)) options s.spaced).1 = .error e := by
  rcases commaRound_error (Prod.ext he rfl) with ⟨-, hsees | rfl⟩ | ⟨hstart, hparse⟩
  · exact absurd hdeep (shallow_seesStart relays hp options s.spaced e hsees)
  · cases hdeep
  · exact ⟨hstart, congrArg Prod.fst hparse⟩

/-- A request that fails for nesting comes to a parse that does. -/
theorem exists_comesToParse (he : (s.handle g r).1 = .error e) (hdeep : e.kind = .tooDeep) :
    ∃ p options s', g.ComesToParse s r p options s' ∧
      (p.parse (some (handle g)) options s').1 = .error e := by
  rw [handle_eq] at he
  cases r with
  | act a => exact absurd hdeep (Cursor.perform_error (Prod.ext he rfl)).2.shallow
  | sees q options => exact absurd hdeep (shallow_seesWithin relays s _ q options e he)
  | rewind id => exact absurd hdeep (s.shallow_rewind id e he)
  | insert kind fields => exact absurd hdeep (Tree.insert_error he).shallow
  | copy id => exact absurd hdeep (Tree.copy_error he).shallow
  | write | state => cases he
  | parse kind options =>
    rcases parse_error (Prod.ext he rfl) with ⟨message, rfl⟩ | ⟨p, hp, hparse⟩
    · cases hdeep
    · exact ⟨p, options, s, .parse hp, congrArg Prod.fst hparse⟩
  | series kind options =>
    rcases series_error (Prod.ext he rfl) with ⟨message, rfl⟩ | ⟨p, hp, hcollect⟩
    · cases hdeep
    · obtain ⟨s', hturns, hround⟩ := exists_turns_of_collect hcollect hdeep
      obtain ⟨hstart, hparse⟩ := parse_of_seriesRound relays (mem_of_find hp) hround hdeep
      exact ⟨p, options, s'.spaced, .series hp hturns hstart, hparse⟩
  | commaList kind options =>
    rcases commaList_error (Prod.ext he rfl) with ⟨message, rfl⟩ | ⟨p, hp, hcollect⟩
    · cases hdeep
    · obtain ⟨s', hturns, hround⟩ := exists_turns_of_collect hcollect hdeep
      obtain ⟨hstart, hparse⟩ := parse_of_commaRound relays (mem_of_find hp) hround hdeep
      exact ⟨p, options, s'.spaced, .commaList hp hturns hstart, hparse⟩

/-- A failure of nesting has been raised by a parse that was one too many. -/
theorem During.exists_full (h : g.During s₀ r₀ parses s r) (he : (s.handle g r).1 = .error e)
    (hdeep : e.kind = .tooDeep) :
    ∃ inside s' r' p options s'', g.During s₀ r₀ (inside ++ parses) s' r' ∧
      g.ComesToParse s' r' p options s'' ∧ s''.cursor.settings.maxDepth ≤ s''.depth ∧
      e = s''.tooDeep := by
  -- Each level deeper takes one from what the settings leave.
  induction hn : s₀.cursor.settings.maxDepth - s₀.depth - parses.length
    generalizing parses s r with
  | zero =>
    obtain ⟨p, options, s', hcomes, hparse⟩ := exists_comesToParse relays he hdeep
    rcases full_or_run_of_parse hparse hdeep with ⟨hfull, rfl⟩ | ⟨hroom, -⟩
    · exact ⟨[], s, r, p, options, s', h, hcomes, hfull, rfl⟩
    · obtain ⟨hsettings, hdepth⟩ := h.counts
      rw [hcomes.stays.settings, hcomes.stays.depth, hsettings, hdepth] at hroom
      omega
  | succ n ih =>
    obtain ⟨p, options, s', hcomes, hparse⟩ := exists_comesToParse relays he hdeep
    rcases full_or_run_of_parse hparse hdeep with ⟨hfull, rfl⟩ | ⟨hroom, hrun⟩
    · exact ⟨[], s, r, p, options, s', h, hcomes, hfull, rfl⟩
    · have hp := relays p hcomes.mem
      rcases (hp.body options).exists_asks hrun hdeep with hseen | ⟨r', s'', hasks, hr'⟩
      · exact hseen.elim
      · have hinside := h.inside hcomes hroom hasks
        obtain ⟨inside, rest⟩ := ih hinside hr' (by rw [List.length_cons]; omega)
        refine ⟨inside ++ [p], ?_⟩
        simpa using rest

end

/-! ## Counting -/

/-- The sessions over a text that requests from outside lead to, whatever their answers. -/
inductive Outside (g : Grammar) (content : String) (settings : Settings) : Session → Prop
  | new {s : Session} : Session.withSettings content g settings = .ok s →
    Outside g content settings s
  | request {s : Session} (r : Request) : Outside g content settings s →
    Outside g content settings (s.handle g r).2

/-- What the parses in progress say about the parse of one more production: with as many as are
allowed it is refused, whatever its program, and changes nothing; with fewer its program runs one
level deeper, ends there, and only it can make the parse fail for its nesting. -/
structure Counted (g : Grammar) (maxDepth : Nat) (parses : List Production) (p : Production)
    (options : Options) (s : Session) : Prop where
  mem : p ∈ g.productions
  depth : s.depth = parses.length
  refused : parses.length = maxDepth → ∃ d, ∀ body,
    ({ p with body } : Production).parse (some (handle g)) options s =
      (.error (.tooDeep maxDepth maxDepth d), s)
  runs : parses.length < maxDepth → ∃ answer after,
    (p.body options).run (handle g) { s with depth := parses.length + 1 } = (answer, after) ∧
      after.depth = parses.length + 1 ∧
      (p.parse (some (handle g)) options s).2.depth = parses.length ∧
      ∀ e, (p.parse (some (handle g)) options s).1 = .error e → e.kind = .tooDeep →
        answer = .error e

variable {content : String} {settings : Settings}

theorem Outside.depth_eq (h : g.Outside content settings s) :
    s.depth = 0 ∧ s.cursor.settings = settings := by
  induction h with
  | new hnew =>
    obtain ⟨-, -, hdepth, hsettings, -⟩ := Session.withSettings_ok hnew
    exact ⟨hdepth, hsettings⟩
  | @request s r _ ih =>
    have hs := Session.stays_handle g r s
    exact ⟨hs.depth.trans ih.1, hs.settings.trans ih.2⟩

theorem counted {maxDepth : Nat} (hmem : p ∈ g.productions)
    (hmax : s.cursor.settings.maxDepth = maxDepth) (hdepth : s.depth = parses.length) :
    g.Counted maxDepth parses p options s where
  mem := hmem
  depth := hdepth
  refused hfull := by
    obtain ⟨d, hfailure, -⟩ := s.tooDeep_eq hmax (hdepth.trans hfull)
    refine ⟨d, fun body => ?_⟩
    rw [Production.parse, if_pos (by omega), hfailure]
  runs hroom := by
    refine ⟨_, _, rfl, ?_, ?_, ?_⟩
    · exact (Program.run_rel Stays.refl Stays.trans (Session.stays_handle g) (p.body options)
        { s with depth := parses.length + 1 }).depth
    · rw [(stays_parse g.stays_inner p options s).depth, hdepth]
    · intro e he hdeep
      rcases full_or_run_of_parse he hdeep with ⟨hfull, -⟩ | ⟨-, hrun⟩
      · omega
      · rwa [← hdepth]

/-- **Depth accounting.** No request changes the depth, so it is zero between those from outside. In
between it counts the parses in progress, and these are counted right before every further parse.
If no production makes failures of nesting up, then every such failure stems from a parse of a
production of the grammar that was one too many. -/
theorem depth_counts {s₀ : Session} (h : g.Outside content settings s₀) :
    s₀.depth = 0 ∧ (∀ r s, (Session.handle g r s).2.depth = s.depth) ∧
      ∀ r₀ parses s r, g.During s₀ r₀ parses s r →
        s.depth = parses.length ∧ parses.length ≤ settings.maxDepth ∧
        (∀ p options s', g.ComesToParse s r p options s' →
          g.Counted settings.maxDepth parses p options s') ∧
        ((∀ p ∈ g.productions, p.Relays) → ∀ e, (s.handle g r).1 = .error e → e.kind = .tooDeep →
          ∃ inside s' r' p options s'' d, g.During s₀ r₀ (inside ++ parses) s' r' ∧
            g.ComesToParse s' r' p options s'' ∧ (inside ++ parses).length = settings.maxDepth ∧
            e = .tooDeep settings.maxDepth settings.maxDepth d) := by
  obtain ⟨hzero, hsettings⟩ := h.depth_eq
  have hcounts {r₀ parses s r} (hd : g.During s₀ r₀ parses s r) :
      s.cursor.settings = settings ∧ s.depth = parses.length ∧
        parses.length ≤ settings.maxDepth := by
    obtain ⟨hs, hdepth⟩ := hd.counts
    have hle := hd.length_le
    rw [hzero, hsettings, Nat.sub_zero] at hle
    rw [hzero, Nat.zero_add] at hdepth
    exact ⟨hs.trans hsettings, hdepth, hle⟩
  refine ⟨hzero, fun r s => (Session.stays_handle g r s).depth, ?_⟩
  intro r₀ parses s r hd
  obtain ⟨hs, hdepth, hle⟩ := hcounts hd
  refine ⟨hdepth, hle, ?_, ?_⟩
  · intro p options s' hcomes
    have hs' := hcomes.stays
    refine counted hcomes.mem ?_ (hs'.depth.trans hdepth)
    rw [hs'.settings, hs]
  · intro relays e he hdeep
    obtain ⟨inside, s', r', p, options, s'', hd', hcomes, hfull, rfl⟩ :=
      hd.exists_full relays he hdeep
    obtain ⟨hs', hdepth', hle'⟩ := hcounts hd'
    have hmax : s''.cursor.settings.maxDepth = settings.maxDepth := by
      rw [hcomes.stays.settings, hs']
    have hlength : s''.depth = settings.maxDepth := by
      rw [hmax] at hfull
      have := hcomes.stays.depth
      omega
    obtain ⟨d, hfailure, -⟩ := s''.tooDeep_eq hmax hlength
    refine ⟨inside, s', r', p, options, s'', d, hd', hcomes, ?_, hfailure⟩
    rw [← hdepth', ← hcomes.stays.depth, hlength]

/-- A session that allows three parses at once. -/
private def crampedSession (content : String) : Session :=
  .ofCursor { Cursor.ofText content with settings := { maxDepth := 3 } } Phrase.grammar.kinds

/-- Four parentheses where three parses are allowed at once. -/
theorem depth_counts_nested :
    let s₀ := crampedSession "((((a))))"
    (s₀.parse Phrase.grammar "Nested" none).2.depth = 0 ∧
      ∃ e, (s₀.parse Phrase.grammar "Nested" none).1 = .error e ∧ e.kind = .tooDeep ∧
        ∃ inside s r p options s' d,
          Phrase.grammar.During s₀ (.parse "Nested" none) (inside ++ []) s r ∧
          Phrase.grammar.ComesToParse s r p options s' ∧ (inside ++ []).length = 3 ∧
          e = .tooDeep 3 3 d := by
  intro s₀
  have hnew : Session.withSettings "((((a))))" Phrase.grammar { maxDepth := 3 } = .ok s₀ := rfl
  obtain ⟨hzero, hkeep, hduring⟩ := depth_counts (.new hnew)
  have hkind : (s₀.parse Phrase.grammar "Nested" none).1.mapError (·.kind) = .error .tooDeep := by
    decide +kernel
  cases he : (s₀.parse Phrase.grammar "Nested" none).1 with
  | ok id =>
    rw [he] at hkind
    cases hkind
  | error e =>
    rw [he] at hkind
    have hdeep : e.kind = .tooDeep := Except.error.inj hkind
    refine ⟨(hkeep _ _).trans hzero, e, rfl, hdeep, ?_⟩
    exact (hduring _ [] _ _ .outside).2.2.2 (fun p hp => (Phrase.locals p hp).relays) e he hdeep

end Grammar
end Descent
