import Descent.Proofs.Program.Consumption
import Descent.Proofs.Script.Literal
import Descent.Proofs.Session.CommaList
import Descent.Proofs.Session.Failures
import Descent.Proofs.Session.Series

/-!
# Parsing terminates

* `Session.Finishes`: a repetition that ends by itself, after no more rounds than there are
  characters ahead;
* `Grammar.Terminates`: a request whose nested parses and repetitions come to an end.

The levels that the settings leave bound how deep parses are nested, and what is ahead bounds each
repetition. The loop over a text literal is a repetition of its own (`Script.rounds_literal`).
-/

namespace Descent

open Session

/-! ## Text literals -/

namespace Script

variable {g : Grammar} {levels : Nat} {s : Session}

theorem consumes_plainPattern : (Pattern.regex plainPattern).Consumes :=
  spans_plain.consumes fun hspan => (mem_of_someOf? hspan).1

/-- An escape takes text. -/
private theorem further_readEscape {escapes : List (String × Char)}
    (hne : ∀ e ∈ escapes, e.1.toList ≠ []) :
    (readEscape escapes).Ensures (g.handler levels) s
      fun c s' => c.isSome → s.cursor.offset < s'.cursor.offset := by
  induction escapes with
  | nil => exact .done nofun
  | cons escape rest ih =>
    exact .take?_bind (consumes_literal (hne escape (.head _))) (fun _ _ h => .done fun _ => h)
      (ih fun e he => hne e (.tail _ he))

/-- An item takes text, but for the closing quote. -/
private theorem further_readItem : readItem.Ensures (g.handler levels) s
    fun item s' => item.isSome → s.cursor.offset < s'.cursor.offset := by
  refine .take?_bind consumes_plainPattern (fun _ _ h => .done fun _ => h) ?_
  refine .take?_bind (consumes_literal (by decide)) (fun _ _ _ => .done nofun) ?_
  refine .take?_bind (consumes_literal (by decide)) (fun _ c₁ h₁ => ?_) ?_
  · refine .forward_bind rfl fun hex c₂ h₂ => .forward_bind rfl fun _ c₃ h₃ => ?_
    refine .forward_bind rfl fun c c₄ h₄ => .done fun _ => ?_
    exact Nat.lt_of_lt_of_le h₁ (Nat.le_trans h₂ (Nat.le_trans h₃ h₄))
  · refine .bind (.mono (further_readEscape (by decide)) fun c s' h => ?_)
    cases c with
    | some c => exact .done fun _ => h rfl
    | none =>
    refine .state_bind ?_
    split
    · exact .refuse _
    · exact .refuse _

/-- The loop over the items of a literal ends by itself: each takes text. -/
theorem rounds_literal (g : Grammar) (value : String) (s : Session) :
    Rounds (handle g) value s
      ((readItems (s.cursor.ahead.length + 1) value).run (handle g) s) := by
  refine rounds_of_shrinks (P := fun _ => True) (fun {s item s'} _ hrun => ⟨trivial, ?_⟩) value
    trivial (Nat.lt_succ_self _)
  have htext := (Program.run_rel Stays.refl Stays.trans (stays_handle g) readItem s).text
  rw [hrun] at htext
  rw [run_handle] at hrun
  exact Cursor.length_ahead_lt htext (further_readItem hrun rfl)

theorem exists_sees {kind : String} (hkind : kind ∈ grammar.kinds) (s : Session)
    (options : Options) : ∃ b, grammar.sees s (.production kind) options = .ok b := by
  rcases mem_kinds.1 hkind with rfl | rfl | rfl | rfl | rfl | rfl | rfl
  · exact ⟨_, sees_name s options⟩
  · exact ⟨_, sees_number s options⟩
  · exact ⟨_, sees_text s options⟩
  · exact ⟨_, rfl⟩
  · obtain ⟨b, hb, -⟩ := seesStart_expr s options 0
    exact ⟨b, hb⟩
  · exact ⟨_, rfl⟩
  · exact ⟨_, rfl⟩

end Script

theorem Phrase.exists_sees {kind : String} (hkind : kind ∈ grammar.kinds) (s : Session)
    (options : Options) : ∃ b, grammar.sees s (.production kind) options = .ok b := by
  rcases mem_kinds.1 hkind with rfl | rfl | rfl | rfl | rfl | rfl | rfl | rfl
  · exact ⟨_, rfl⟩
  · exact ⟨_, rfl⟩
  · exact ⟨_, rfl⟩
  · exact ⟨_, rfl⟩
  · exact ⟨_, rfl⟩
  · change ∃ b, (do
      if ← s.cursor.sees (.literal "(") then return true
      return (s.cursor.seesWord none).1) = Except.ok b
    rw [Cursor.sees_of_spans (spans_literal "(")]
    cases (literalSpan? "(" s.cursor.ahead).isSome <;> exact ⟨_, rfl⟩
  · exact ⟨_, rfl⟩
  · exact ⟨_, rfl⟩

/-! ## Requests -/

/-- A repetition ends by itself, and each round but the last uses up what is ahead. -/
structure Session.Finishes (round : Session → Outcome Session Round) (s : Session)
    (o : Outcome Session (List NodeId)) : Prop where
  ends : Ends round s o
  rounds : ∀ {ids s'}, Goes round s ids s' → ids.length ≤ s.cursor.ahead.length

namespace Grammar

/-- A request comes to an end: the parses on the way are nested no deeper than the settings allow,
and every repetition on the way ends by itself. -/
structure Terminates (g : Grammar) (s : Session) (r : Request) : Prop where
  nested : ∀ {parses s' r'}, g.During s r parses s' r' →
    parses.length ≤ s.cursor.settings.maxDepth - s.depth
  series : ∀ {parses s' kind options p}, g.During s r parses s' (.series kind options) →
    g.find kind = .ok p →
    Finishes (g.seriesRound (some (handle g)) p options) s' (s'.handle g (.series kind options))
  commaList : ∀ {parses s' kind options p}, g.During s r parses s' (.commaList kind options) →
    g.find kind = .ok p →
    Finishes (g.commaRound (some (handle g)) p options) s'
      (s'.handle g (.commaList kind options))

variable {g : Grammar} {kind : String} {p : Production} {options : Options} {s s' : Session}
  {id : NodeId}

section
variable (hg : ∀ p ∈ g.productions, p.Local)
include hg

theorem offset_le_element (hp : g.find kind = .ok p)
    (h : p.parse (some (handle g)) options s = (.ok id, s')) :
    s.cursor.offset ≤ s'.cursor.offset :=
  offset_le_of_local hg ((handle_parse hp options s).trans h)

theorem terminates_of_local (s : Session) (r : Request) : g.Terminates s r where
  nested h := h.length_le
  series {parses s' kind options p} _ hp := by
    have hstays := stays_seriesRound (g := g) g.stays_inner p options
    refine ⟨?_, goes_further hstays (seriesRound_further (offset_le_element hg hp))⟩
    rw [handle_series hp]
    exact ends_of_further hstays (seriesRound_further (offset_le_element hg hp)) s'
  commaList {parses s' kind options p} _ hp := by
    have hstays := stays_commaRound (g := g) g.stays_inner p options
    refine ⟨?_, goes_further hstays (commaRound_further (offset_le_element hg hp))⟩
    rw [handle_commaList hp]
    exact ends_of_further hstays (commaRound_further (offset_le_element hg hp)) s'

/-- A local request fails with one of the failures that are listed. -/
theorem fails_handle {r : Request} (hr : r.isLocal) {e : Failure}
    (h : (s.handle g r).1 = .error e) : g.Fails e := by
  obtain ⟨A, hA⟩ := r.exists_corresponds hr 0 []
  exact failsAll_handler hg _ hA h

end

/-- **Parsing terminates and never runs backwards.** Wherever a session stands and whatever its
settings are, parsing a node, a series or a list of a production comes to an end, and so does a text
literal; no repetition is given up, and it can always be told whether the production is at the
cursor. The cursor never ends in front of where it began. A parse that succeeds ends behind that,
unless it is of a script or of what is empty, and so a series of such nodes is never refused for an
element that consumed nothing. -/
theorem parsing_onward (hg : g = Script.grammar ∨ g = Phrase.grammar) (s : Session)
    (hkind : kind ∈ g.kinds) (options : Options) :
    (∀ r ∈ [Request.parse kind options, .series kind options, .commaList kind options],
      g.Terminates s r ∧ s.cursor.offset ≤ (s.handle g r).2.cursor.offset ∧
        ∀ e, (s.handle g r).1 = .error e → e ≠ .badState "a repetition does not end") ∧
    (∃ b, g.sees s (.production kind) options = .ok b) ∧
    (∀ value, Script.Rounds (handle g) value s
      ((Script.readItems (s.cursor.ahead.length + 1) value).run (handle g) s)) ∧
    (kind ≠ "Script" → kind ≠ "Empty" →
      (∀ id s', s.parse g kind options = (.ok id, s') → s.cursor.offset < s'.cursor.offset) ∧
      ∀ e, (s.handle g (.series kind options)).1 = .error e →
        e ≠ .badState s!"{kind} matched without consuming input inside a chain") := by
  have hlocal := locals hg
  have hconsumes : kind ≠ "Script" → kind ≠ "Empty" → g.Consumes kind := by
    rcases hg with rfl | rfl
    · exact fun hscript _ => Script.consumes hkind hscript
    · exact fun _ hempty => Phrase.consumes hkind hempty
  have hsees : ∃ b, g.sees s (.production kind) options = .ok b := by
    rcases hg with rfl | rfl
    · exact Script.exists_sees hkind s options
    · exact Phrase.exists_sees hkind s options
  refine ⟨fun r hr => ?_, hsees, fun value => Script.rounds_literal g value s,
    fun hscript hempty => ⟨fun id s' h => hconsumes hscript hempty h, fun e he => ?_⟩⟩
  · have hisLocal : r.isLocal := by
      simp only [List.mem_cons, List.not_mem_nil, or_false] at hr
      rcases hr with rfl | rfl | rfl <;> rfl
    exact ⟨terminates_of_local hlocal s r, offset_le_handler hlocal hisLocal _ s,
      fun e he => (fails_handle hlocal hisLocal he).ne_endless⟩
  · have hfails : g.Fails e := fails_handle (r := .series kind options) hlocal rfl he
    exact hfails.ne_idle (hconsumes hscript hempty)

/-- An expression in the middle of a script: a call with arguments in it, which goes back over its
names. -/
theorem parsing_onward_call :
    let s := { Session.ofText "let a = f(b, g());" Script.grammar with
      cursor := (Cursor.ofText "let a = f(b, g());").moveTo 8 }
    s.cursor.offset = 8 ∧ (s.parse Script.grammar "Expression" none).2.cursor.offset = 17 ∧
      Script.grammar.Terminates s (.parse "Expression" none) ∧
      (∀ id s', s.parse Script.grammar "Expression" none = (.ok id, s') → 8 < s'.cursor.offset) ∧
      ∀ e, (s.handle Script.grammar (.series "Expression" none)).1 = .error e →
        e ≠ .badState "Expression matched without consuming input inside a chain" := by
  intro s
  have hkind : "Expression" ∈ Script.grammar.kinds := by decide
  obtain ⟨hends, -, -, hfurther⟩ := parsing_onward (.inl rfl) s hkind none
  obtain ⟨hparse, hseries⟩ := hfurther (by decide) (by decide)
  have hoffset : s.cursor.offset = 8 := by decide +kernel
  rw [hoffset] at hparse
  exact ⟨hoffset, by decide +kernel, (hends _ (.head _)).1, hparse, hseries⟩

end Grammar
end Descent
