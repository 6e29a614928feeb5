import Descent.Proofs.Cursor.Span
import Descent.Proofs.Session.Growth

/-!
# Parses in progress

* `Session.Stays`: what no request changes: the text, its settings, and the depth;
* `Program.Asks`: the requests of a program, each with the session it is put to;
* `Session.Turns`: the sessions that the rounds of a repetition begin in;
* `Grammar.ComesToParse`: the parses that a request begins without the help of another;
* `Grammar.During`: the requests on the way to the answer of an outer one, each with the
  productions whose parses are in progress then.

The levels that a handler has left are those that the settings leave to its session, so requests are
answered without counting them (`handle_eq`).
-/

namespace Descent

/-! ## Handlers -/

/-- Handlers that agree wherever a program may come run it alike. -/
theorem Program.run_congr {α : Type} {P : Session → Prop} {handle handle' : Handler}
    (keep : ∀ r s, P s → P (handle r s).2) (same : ∀ r s, P s → handle r s = handle' r s)
    (p : Program α) {s : Session} (h : P s) : p.run handle s = p.run handle' s := by
  induction p generalizing s with
  | done => rfl
  | ask request next ih =>
    rw [run, run, ← same request s h]
    exact ih _ (keep request s h)

namespace Session

/-- Rounds that agree wherever a repetition may come are repeated alike. -/
theorem collect_congr {P : Session → Prop} {round round' : Session → Outcome Session Round}
    (keep : ∀ s, P s → P (round s).2) (same : ∀ s, P s → round s = round' s)
    (found : List NodeId) (fuel : Nat) {s : Session} (h : P s) :
    collect round found fuel s = collect round' found fuel s := by
  induction fuel generalizing found s with
  | zero => rfl
  | succ fuel ih =>
    have hkeep := keep s h
    rw [collect, collect, ← same s h]
    rcases hr : round s with ⟨answer, after⟩
    rw [hr] at hkeep
    rcases answer with e | ⟨- | id | id⟩
    · rfl
    · rfl
    · rfl
    · exact ih _ hkeep

/-- The same number of parses is in progress on the same text with the same settings. -/
structure Stays (s s' : Session) : Prop where
  text : s'.cursor.text = s.cursor.text
  settings : s'.cursor.settings = s.cursor.settings
  depth : s'.depth = s.depth

variable {s s' s'' : Session}

theorem Stays.refl (s : Session) : s.Stays s := ⟨rfl, rfl, rfl⟩

theorem Stays.trans (h : s.Stays s') (h' : s'.Stays s'') : s.Stays s'' :=
  ⟨h'.text.trans h.text, h'.settings.trans h.settings, h'.depth.trans h.depth⟩

theorem stays_act (s : Session) (a : Cursor.Action) : s.Stays (s.act a).2 :=
  ⟨s.cursor.perform_text a, s.cursor.perform_settings a, rfl⟩

theorem Moves.stays (h : s.Moves s') : s.Stays s' :=
  ⟨h.cursor.text, h.cursor.settings, h.depth⟩

theorem stays_spaced (s : Session) : s.Stays s.spaced :=
  s.moves_spaced.stays

end Session

namespace Grammar

open Session

variable {g : Grammar} {inner : Option Handler}

section
variable (h : ∀ handle ∈ inner, ∀ r s, Session.Stays s (handle r s).2)
include h

theorem stays_parse (p : Production) (options : Options) (s : Session) :
    s.Stays (p.parse inner options s).2 := by
  unfold Production.parse
  split
  · exact .refl s
  · cases inner with
    | none => exact .refl s
    | some handle =>
      have hbody := Program.run_rel Stays.refl Stays.trans (h handle rfl) (p.body options)
        { s with depth := s.depth + 1 }
      simp only
      rcases hr : (p.body options).run handle { s with depth := s.depth + 1 } with ⟨answer, after⟩
      rw [hr] at hbody
      have hdepth : after.depth - 1 = s.depth := congrArg (· - 1) hbody.depth
      cases answer <;> exact ⟨hbody.text, hbody.settings, hdepth⟩

theorem stays_seriesRound (p : Production) (options : Options) (s : Session) :
    s.Stays (g.seriesRound inner p options s).2 := by
  have hparse := s.stays_spaced.trans (stays_parse h p options s.spaced)
  rcases g.seriesRound_moves inner p options s with hm | hm
  · exact hm.stays
  · exact hparse.trans hm.stays

theorem stays_commaRound (p : Production) (options : Options) (s : Session) :
    s.Stays (g.commaRound inner p options s).2 := by
  have hparse := s.stays_spaced.trans (stays_parse h p options s.spaced)
  rcases g.commaRound_moves inner p options s with hm | hm
  · exact hm.stays
  · exact hparse.trans hm.stays

theorem stays_answer (r : Request) (s : Session) : s.Stays (g.answer inner r s).2 := by
  cases r with
  | act a => exact s.stays_act a
  | sees | write | state | insert | copy => exact ⟨rfl, rfl, rfl⟩
  | parse kind options =>
    simp only [answer, parse]
    split
    · exact .refl s
    next p _ => exact stays_parse h p options s
  | series kind options =>
    simp only [answer, series]
    split
    · exact .refl s
    next p _ =>
      exact collect_rel Stays.refl Stays.trans (stays_seriesRound h p options) _ _ s
  | commaList kind options =>
    simp only [answer, commaList]
    split
    · exact .refl s
    next p _ =>
      exact collect_rel Stays.refl Stays.trans (stays_commaRound h p options) _ _ s
  | rewind id =>
    simp only [answer, rewind]
    split
    · exact .refl s
    · split
      · exact .refl s
      next start _ => exact s.stays_act (.goTo start)

end

theorem stays_handler (levels : Nat) (r : Request) (s : Session) :
    s.Stays (g.handler levels r s).2 := by
  induction levels generalizing r s with
  | zero => exact stays_answer (fun _ h => by cases h) r s
  | succ levels ih =>
    refine stays_answer ?_ r s
    rintro _ ⟨⟩
    exact ih

/-- A request is answered alike by inner handlers under which every production parses alike. -/
theorem answer_congr {inner inner' : Option Handler}
    (h : ∀ handle ∈ inner, ∀ r s, Session.Stays s (handle r s).2) {s : Session}
    (same : ∀ s', s.Stays s' → ∀ (p : Production) options,
      p.parse inner options s' = p.parse inner' options s') (r : Request) :
    g.answer inner r s = g.answer inner' r s := by
  have hseries (p : Production) (options : Options) (s' : Session) (hs : s.Stays s') :
      g.seriesRound inner p options s' = g.seriesRound inner' p options s' := by
    have hparse := same s'.spaced (hs.trans s'.stays_spaced) p options
    simp only [seriesRound, hparse]
  have hcomma (p : Production) (options : Options) (s' : Session) (hs : s.Stays s') :
      g.commaRound inner p options s' = g.commaRound inner' p options s' := by
    have hparse := same s'.spaced (hs.trans s'.stays_spaced) p options
    simp only [commaRound, hparse]
  cases r with
  | act | sees | write | state | insert | copy | rewind => rfl
  | parse kind options =>
    simp only [answer, parse]
    split
    · rfl
    next p _ => exact same s (.refl s) p options
  | series kind options =>
    simp only [answer, series]
    split
    · rfl
    next p _ =>
      exact collect_congr (fun s' hs => hs.trans (stays_seriesRound h p options s'))
        (hseries p options) _ _ (.refl s)
  | commaList kind options =>
    simp only [answer, commaList]
    split
    · rfl
    next p _ =>
      exact collect_congr (fun s' hs => hs.trans (stays_commaRound h p options s'))
        (hcomma p options) _ _ (.refl s)

end Grammar

namespace Session

variable {g : Grammar} {s s' : Session}

theorem stays_handle (g : Grammar) (r : Request) (s : Session) : s.Stays (s.handle g r).2 :=
  g.stays_handler _ r s

/-- The handler for the levels that a session has left. -/
theorem handle_eq_handler {levels : Nat} (h : s.cursor.settings.maxDepth - s.depth = levels)
    (r : Request) : s.handle g r = g.handler levels r s :=
  h ▸ rfl

theorem Stays.levels (h : s.Stays s') :
    s'.cursor.settings.maxDepth - s'.depth = s.cursor.settings.maxDepth - s.depth := by
  rw [h.settings, h.depth]

/-- **Requests without levels.** A request is answered as if those of the nodes below had no limit
but the one that every parse tests. -/
theorem handle_eq (g : Grammar) (r : Request) (s : Session) :
    s.handle g r = g.answer (some (handle g)) r s := by
  cases hlevels : s.cursor.settings.maxDepth - s.depth with
  | zero =>
    rw [handle_eq_handler hlevels]
    refine Grammar.answer_congr (fun _ h => by cases h) (fun s' hs p options => ?_) r
    have hfull : s'.cursor.settings.maxDepth ≤ s'.depth := by
      have := hs.levels
      omega
    rw [Production.parse, Production.parse, if_pos hfull, if_pos hfull]
  | succ levels =>
    rw [handle_eq_handler hlevels]
    refine Grammar.answer_congr ?_ (fun s' hs p options => ?_) r
    · rintro _ ⟨⟩
      exact g.stays_handler levels
    · have hs' := hs.levels
      unfold Production.parse
      simp only
      rw [Program.run_congr (P := fun s => s.cursor.settings.maxDepth - s.depth = levels)]
      · intro r s hlevels
        rw [(g.stays_handler levels r s).levels, hlevels]
      · intro r s hlevels
        exact (handle_eq_handler hlevels r).symm
      · simp only
        omega

end Session

/-! ## What is in progress -/

/-- A program makes a request at a session when it is run. -/
inductive Program.Asks {α : Type} (handle : Handler) :
    Program α → Session → Request → Session → Prop
  | first {request next s} : Asks handle (.ask request next) s request s
  | later {request next s request' s'} :
    Asks handle (next (handle request s).1) (handle request s).2 request' s' →
    Asks handle (.ask request next) s request' s'

/-- A round begins at a session when it is repeated at most `fuel` times. -/
inductive Session.Turns (round : Session → Outcome Session Round) :
    Nat → Session → Session → Prop
  | first {fuel s} : Turns round (fuel + 1) s s
  | later {fuel s id after s'} : round s = (.ok (.next id), after) →
    Turns round fuel after s' → Turns round (fuel + 1) s s'

namespace Grammar

open Session

/-- A request at a session comes to parse a production with options at a session. -/
inductive ComesToParse (g : Grammar) (s : Session) : Request → Production → Options → Session → Prop
  | parse {kind options p} :
    g.find kind = .ok p → ComesToParse g s (.parse kind options) p options s
  | series {kind options p s'} : g.find kind = .ok p →
    Turns (g.seriesRound (some (handle g)) p options)
      (s.cursor.ahead.length + 1 + patience) s s' →
    g.seesStart p options s'.spaced = .ok true →
    ComesToParse g s (.series kind options) p options s'.spaced
  | commaList {kind options p s'} : g.find kind = .ok p →
    Turns (g.commaRound (some (handle g)) p options)
      (s.cursor.ahead.length + 1 + patience) s s' →
    g.seesStart p options s'.spaced = .ok true →
    ComesToParse g s (.commaList kind options) p options s'.spaced

/-- While a request at a session is answered, a request is put to a session, with parses of some
productions in progress, the innermost first. -/
inductive During (g : Grammar) (s₀ : Session) (r₀ : Request) :
    List Production → Session → Request → Prop
  | outside : During g s₀ r₀ [] s₀ r₀
  | inside {parses s r p options s' r' s''} : During g s₀ r₀ parses s r →
    ComesToParse g s r p options s' → s'.depth < s'.cursor.settings.maxDepth →
    (p.body options).Asks (handle g) { s' with depth := s'.depth + 1 } r' s'' →
    During g s₀ r₀ (p :: parses) s'' r'

end Grammar

theorem Program.Asks.stays {α : Type} {p : Program α} {handle : Handler} {s s' : Session}
    {r : Request} (h : p.Asks handle s r s') (keep : ∀ r s, Session.Stays s (handle r s).2) :
    s.Stays s' := by
  induction h with
  | first => exact .refl _
  | @later request next s _ _ _ ih => exact (keep request s).trans ih

/-- What is asked for after a request is asked for with its answer. -/
theorem Program.asks_request_bind {α : Type} {handle : Handler} {s s' : Session}
    {r r' : Request} {f : r.Answer → Program α} :
    (request r >>= f).Asks handle s r' s' ↔
      r' = r ∧ s' = s ∨
        ∃ x after, handle r s = (.ok x, after) ∧ (f x).Asks handle after r' s' := by
  constructor
  · intro h
    cases h with
    | first => exact .inl ⟨rfl, rfl⟩
    | later h =>
      rcases hanswer : handle r s with ⟨e | x, after⟩ <;> rw [hanswer] at h
      · cases h
      · exact .inr ⟨x, after, rfl, h⟩
  · rintro (⟨rfl, rfl⟩ | ⟨x, after, hanswer, h⟩)
    · exact .first
    · refine .later ?_
      rw [hanswer]
      exact h

theorem Session.Turns.stays {round : Session → Outcome Session Session.Round} {fuel : Nat}
    {s s' : Session} (h : Turns round fuel s s') (keep : ∀ s, Stays s (round s).2) :
    s.Stays s' := by
  induction h with
  | first => exact .refl _
  | @later _ s _ after _ hround _ ih =>
    have hs := keep s
    rw [hround] at hs
    exact hs.trans ih

namespace Grammar

variable {g : Grammar} {s₀ s s' : Session} {r₀ r : Request} {p : Production} {options : Options}
  {parses : List Production}

theorem stays_inner (g : Grammar) :
    ∀ handle ∈ some (Session.handle g), ∀ r s, Session.Stays s (handle r s).2 := by
  rintro _ ⟨⟩ r s
  exact Session.stays_handle g r s

theorem ComesToParse.stays (h : g.ComesToParse s r p options s') : s.Stays s' := by
  cases h with
  | parse => exact .refl s
  | @series kind options p s' _ hturns =>
    exact (hturns.stays (stays_seriesRound g.stays_inner p options)).trans s'.stays_spaced
  | @commaList kind options p s' _ hturns =>
    exact (hturns.stays (stays_commaRound g.stays_inner p options)).trans s'.stays_spaced

theorem mem_of_find {kind : String} (h : g.find kind = .ok p) : p ∈ g.productions := by
  unfold find at h
  split at h
  next q hq =>
    cases h
    exact List.mem_of_find?_eq_some hq
  next => cases h

theorem ComesToParse.mem (h : g.ComesToParse s r p options s') : p ∈ g.productions := by
  cases h with
  | parse hfind => exact mem_of_find hfind
  | series hfind => exact mem_of_find hfind
  | commaList hfind => exact mem_of_find hfind

/-- The depth counts the parses in progress. -/
theorem During.counts (h : g.During s₀ r₀ parses s r) :
    s.cursor.settings = s₀.cursor.settings ∧ s.depth = s₀.depth + parses.length := by
  induction h with
  | outside => exact ⟨rfl, rfl⟩
  | inside _ hcomes _ hasks ih =>
    have hs := hcomes.stays
    have hs' := hasks.stays (Session.stays_handle g)
    refine ⟨(hs'.settings.trans hs.settings).trans ih.1, ?_⟩
    rw [hs'.depth, hs.depth, ih.2, List.length_cons, Nat.add_assoc]

theorem During.length_le (h : g.During s₀ r₀ parses s r) :
    parses.length ≤ s₀.cursor.settings.maxDepth - s₀.depth := by
  cases h with
  | outside => exact Nat.zero_le _
  | inside hd hcomes hroom =>
    obtain ⟨hsettings, hdepth⟩ := hd.counts
    rw [hcomes.stays.depth, hcomes.stays.settings, hsettings, hdepth] at hroom
    rw [List.length_cons]
    omega

end Grammar
end Descent
