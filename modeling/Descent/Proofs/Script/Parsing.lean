import Descent.Proofs.Script.Soundness

/-!
# Productions of scripts follow their readers

For each production its program builds what its reader reads, and so a parse of the production
follows the reader.
-/

namespace Descent.Script

open Reader (many commaTurn seriesTurn)
open Session (Builds Parses parses_deeper parses_of_builds parses_zero)

variable {levels : Nat} {options : Options} {s s' : Session} {rest : List Char}

/-! ## Names and numbers -/

theorem builds_name :
    Builds grammar levels identifier options readName nameJson (fun s _ => s) := by
  intro s cs hs hahead
  refine Agrees.bind (hs.agrees_take spans_name hahead _) ?_
  rintro _ ⟨l, rest⟩ s' ⟨rfl, hcomes⟩
  exact ⟨_, _, rfl, hcomes, rfl, fun _ => rfl⟩

theorem parses_name :
    Parses grammar levels "Identifier" options (deeper levels readName) nameJson (fun s _ => s) :=
  parses_deeper rfl (fun _ => builds_name) levels

theorem builds_number :
    Builds grammar levels number options readNumber valueJson
      (fun value _ => numberText value) := by
  intro s cs hs hahead
  refine Agrees.bind (hs.agrees_take spans_number hahead _) ?_
  rintro _ ⟨l, rest⟩ s' ⟨rfl, hcomes⟩
  simp only [String.toList_ofList]
  cases numberValue? l with
  | none => exact ⟨_, _, Session.run_fail _⟩
  | some value => exact ⟨_, _, rfl, hcomes, rfl, fun _ => rfl⟩

theorem parses_number :
    Parses grammar levels "Number" options (deeper levels readNumber) valueJson
      (fun value _ => numberText value) :=
  parses_deeper rfl (fun _ => builds_number) levels

/-! ## Text literals -/

theorem agrees_readEscape (hs : s.Ready grammar levels) (escapes : List (String × Char)) :
    ∃ s', (readEscape escapes).run (grammar.handler levels) s =
        (.ok ((readOneOf escapes s.cursor.ahead).map (·.1)), s') ∧
      s.Comes (((readOneOf escapes s.cursor.ahead).map (·.2)).getD s.cursor.ahead) [] s' := by
  induction escapes with
  | nil => exact ⟨s, rfl, hs.comes (.refl _)⟩
  | cons entry escapes ih =>
    obtain ⟨escape, c⟩ := entry
    simp only [readEscape, readOneOf, Program.run_bind]
    rcases hspan : literalSpan? escape s.cursor.ahead with _ | ⟨l, rest⟩
    · rw [Session.run_take?_none (spans_literal escape) hspan]
      exact ih
    · obtain ⟨s', hrun, hcomes⟩ := hs.run_take?_some (spans_literal escape) hspan
      rw [hrun]
      exact ⟨s', rfl, hcomes⟩

/-- What a production gets for an item of a text literal. -/
private def ItemIs (item : Option String) : Turn (List Char) → Prop
  | .stop => item = none
  | .next l => item = some (String.ofList l)
  | .last _ => False

private theorem agrees_codePoint (hs : s.Ready grammar levels) {cs : List Char}
    (hahead : s.cursor.ahead = cs) :
    Agrees (Program.run (grammar.handler levels) (do
      let hex ← .take (.regex bracedPattern) none
      let _ ← .take (.literal "\x7d") (some "unterminated unicode escape")
      let c ← .decode hex
      return some c.toString) s) (readCodePoint cs)
      fun item x s' => item = some (String.ofList [x.1]) ∧ s.Comes x.2 [] s' := by
  unfold readCodePoint
  refine Agrees.bind (hs.agrees_take spans_braced hahead _) ?_
  rintro _ ⟨hex, rest⟩ s' ⟨rfl, hcomes⟩
  refine Agrees.bind ((hcomes.ready hs).agrees_take (spans_literal _) hcomes.ahead _) ?_
  rintro _ ⟨_, rest'⟩ s'' ⟨-, hcomes'⟩
  refine Agrees.bind (Session.agrees_decode _) ?_
  rintro c _ _ ⟨rfl, rfl⟩
  exact ⟨_, _, rfl, by rw [← String.singleton_eq_ofList]; rfl, hcomes.trans hcomes'⟩

theorem agrees_readItem (hs : s.Ready grammar levels) :
    Agrees (readItem.run (grammar.handler levels) s) (readPiece s.cursor.ahead)
      fun item x s' => ItemIs item x.1 ∧ s.Comes x.2 [] s' := by
  unfold readItem readPiece
  rcases hplain : plainSpan? s.cursor.ahead with _ | ⟨l, rest⟩
  · refine Agrees.step (Session.run_take?_none spans_plain hplain) ?_
    rcases hquote : literalSpan? "\"" s.cursor.ahead with _ | ⟨l, rest⟩
    · refine Agrees.step (Session.run_take?_none (spans_literal _) hquote) (Agrees.map ?_)
      unfold readEscaped
      rcases hunicode : literalSpan? "\\u\x7b" s.cursor.ahead with _ | ⟨l, rest⟩
      · refine Agrees.step (Session.run_take?_none (spans_literal _) hunicode) ?_
        obtain ⟨s', hrun, hcomes⟩ := agrees_readEscape hs escapes
        refine Agrees.step hrun ?_
        generalize readOneOf escapes s.cursor.ahead = answer at hcomes ⊢
        rcases answer with _ | ⟨c, rest⟩
        · refine Agrees.step Session.run_state ?_
          split <;> exact ⟨_, _, Session.run_fail _⟩
        · exact ⟨_, _, rfl, by rw [ItemIs, ← String.singleton_eq_ofList]; rfl, hcomes⟩
      · obtain ⟨s', hrun, hcomes⟩ := hs.run_take?_some (spans_literal _) hunicode
        refine Agrees.step hrun ((agrees_codePoint (hcomes.ready hs) hcomes.ahead).mono ?_)
        rintro item x s'' ⟨hitem, hcomes'⟩
        exact ⟨hitem, hcomes.trans hcomes'⟩
    · obtain ⟨s', hrun, hcomes⟩ := hs.run_take?_some (spans_literal _) hquote
      exact Agrees.step hrun ⟨_, _, rfl, rfl, hcomes⟩
  · obtain ⟨s', hrun, hcomes⟩ := hs.run_take?_some spans_plain hplain
    exact Agrees.step hrun ⟨_, _, rfl, rfl, hcomes⟩

theorem agrees_readItems {fuel : Nat} {cs : List Char} (value : String)
    (hs : s.Ready grammar levels) (hahead : s.cursor.ahead = cs) (hfuel : cs.length < fuel) :
    Agrees ((readItems fuel value).run (grammar.handler levels) s) (many readPiece cs)
      fun out x s' => out = value ++ String.ofList x.1.flatten ∧ s.Comes x.2 [] s' := by
  induction fuel generalizing value s cs with
  | zero => exact absurd hfuel (Nat.not_lt_zero _)
  | succ fuel ih =>
    have hitem := agrees_readItem hs
    rw [hahead] at hitem
    unfold readItems
    rw [many]
    rcases hpiece : readPiece cs with _ | ⟨turn, rest⟩
    · rw [hpiece] at hitem
      obtain ⟨e, s', hrun⟩ := hitem
      rw [Program.run_bind, hrun]
      exact ⟨_, _, rfl⟩
    · rw [hpiece] at hitem
      obtain ⟨item, s', hrun, his, hcomes⟩ := hitem
      refine Agrees.step hrun ?_
      cases turn with
      | stop =>
        cases his
        exact ⟨_, _, rfl, by simp, hcomes⟩
      | last l => cases his
      | next l =>
        cases his
        have hlt := readPiece_next hpiece
        have hrec := ih (value ++ String.ofList l) (hcomes.ready hs) hcomes.ahead
          (Nat.lt_of_lt_of_le hlt (Nat.le_of_lt_succ hfuel))
        simp only [hlt, if_true]
        refine (hrec.mono ?_).map
        rintro out x s'' ⟨rfl, hcomes'⟩
        exact ⟨by simp [String.append_assoc], hcomes.trans hcomes'⟩

/-- A text node has one field, for the text that the literal stands for. -/
theorem agrees_text (hs : s.Ready grammar levels) {cs : List Char} (hahead : s.cursor.ahead = cs) :
    Agrees ((text.body options).run (grammar.handler levels) s) (readText cs)
      fun fields x s' => fields = .ofList [("value", .string x.1)] ∧ s.Comes x.2 [] s' := by
  refine Agrees.bind (hs.agrees_take (spans_literal _) hahead _) ?_
  rintro _ ⟨_, rest⟩ s' ⟨-, hcomes⟩
  have hrest : s'.cursor.ahead = rest := hcomes.ahead
  refine Agrees.step Session.run_state ?_
  refine Agrees.bind (agrees_readItems "" (hcomes.ready hs) hrest (by rw [hrest]; omega)) ?_
  rintro _ ⟨pieces, rest'⟩ s'' ⟨rfl, hcomes'⟩
  rw [String.empty_append]
  exact ⟨_, _, rfl, rfl, hcomes.trans hcomes'⟩

theorem builds_text : Builds grammar levels text options readText
    (fun s => valueJson (.string s)) textSource := by
  intro s cs hs hahead
  refine (agrees_text hs hahead).mono ?_
  rintro _ x s' ⟨rfl, hcomes⟩
  exact ⟨hcomes, rfl, fun _ => rfl⟩

theorem parses_text : Parses grammar levels "Text" options (deeper levels readText)
    (fun s => valueJson (.string s)) textSource :=
  parses_deeper rfl (fun _ => builds_text) levels

/-! ## Looking for an expression -/

section
variable (s) (options : Options)

theorem sees_text : grammar.sees s (.production "Text") options =
    .ok (literalSpan? "\"" s.cursor.ahead).isSome :=
  Cursor.sees_of_spans (spans_literal "\"") s.cursor

theorem sees_number : grammar.sees s (.production "Number") options =
    .ok (numberSpan? s.cursor.ahead).isSome :=
  Cursor.sees_of_spans spans_number s.cursor

theorem sees_name : grammar.sees s (.production "Identifier") options =
    .ok (nameSpan? s.cursor.ahead).isSome :=
  Cursor.sees_of_spans spans_name s.cursor

theorem run_seesProduction {kind : String} {b : Bool}
    (h : grammar.sees s (.production kind) options = .ok b) :
    (Program.seesProduction kind options).run (grammar.handler levels) s = (.ok b, s) := by
  rw [← h]
  exact Session.run_request (.sees (.production kind) options)

/-- Where no expression begins, none is read. -/
theorem readExpr_eq_none {cs : List Char} (levels : Nat) (htext : literalSpan? "\"" cs = none)
    (hnumber : numberSpan? cs = none) (hname : nameSpan? cs = none) :
    readExpr levels cs = none := by
  cases levels with
  | zero => rfl
  | succ levels =>
    have hread : deeper levels readName cs = none :=
      deeper_eq_none (by simp [readName, hname]) levels
    simp [readExpr_succ, htext, hnumber, hread]

theorem seesStart_expr (levels : Nat) : ∃ b, grammar.seesStart expression options s = .ok b ∧
    (b = false → readExpr levels s.cursor.ahead = none) := by
  change ∃ b, (do
    if ← grammar.sees s (.production "Text") options then return true
    if ← grammar.sees s (.production "Number") options then return true
    grammar.sees s (.production "Identifier") options) = Except.ok b ∧ _
  rw [sees_text, sees_number, sees_name]
  rcases htext : literalSpan? "\"" s.cursor.ahead with _ | span
  · rcases hnumber : numberSpan? s.cursor.ahead with _ | span
    · rcases hname : nameSpan? s.cursor.ahead with _ | span
      · exact ⟨false, rfl, fun _ => readExpr_eq_none levels htext hnumber hname⟩
      · exact ⟨true, rfl, nofun⟩
    · exact ⟨true, rfl, nofun⟩
  · exact ⟨true, rfl, nofun⟩

end

/-! ## Calls and expressions -/

/-- The end of a call, when its name and its arguments have been parsed. -/
private theorem agrees_close {s₀ : Session} {cs : List Char} {name : NodeId} {ids : List NodeId}
    {f : String} {xs : List Expr} (hs : s.Ready grammar levels)
    (hcomes : s₀.Comes cs (name :: ids) s)
    (hname : grammar.Shows s.tree name (nameJson f) fun _ => f)
    (hargs : Session.ShowsAll grammar s.tree Expr.json Expr.source ids xs) :
    Agrees (Program.run (grammar.handler levels) (do
        .dropSpace
        let _ ← .take (.literal ")") none
        return .ofList [("name", .node name), ("args", .list ids)]) s)
      (do
        let (_, rest) ← literalSpan? ")" (cs.dropWhile Text.isSpace)
        return ((f, xs), rest))
      fun fields x s' => s₀.Comes x.2 fields.children s' ∧
        Session.Draws grammar s'.tree call fields (callJson x.1.1 (x.1.2.map Expr.json))
          fun options => callSource x.1.1 (x.1.2.map (·.source options)) := by
  refine hs.agrees_spaced_take (spans_literal _) hcomes.ahead fun span s' hclose => ?_
  have hname' := hname.keeps hclose.keeps
  obtain ⟨hjsons, htexts⟩ := Session.json_of_showsAll (hargs.imp fun _ _ h => h.keeps hclose.keeps)
  have hchildren : (Fields.ofList [("name", .node name), ("args", .list ids)]).children =
      name :: ids := by
    simp [Fields.ofList, Fields.children, Fields.set, Fields.setEntry, Fields.empty, Field.children]
  refine ⟨_, s', rfl, hchildren ▸ by simpa using hcomes.trans hclose, ?_, fun options => ?_⟩
  · change Json.ofMembers [("name", s'.tree.json name), ("args", .array (ids.map s'.tree.json))] = _
    rw [hname'.json_eq, hjsons]
    rfl
  · change grammar.write s'.tree name options ++ "(" ++
      ", ".intercalate (ids.map (grammar.write s'.tree · options)) ++ ")" = _
    rw [hname'.write_eq, htexts]
    rfl

theorem builds_call
    (hexpr : Parses grammar levels "Expression" options (readExpr levels) Expr.json Expr.source) :
    Builds grammar levels call options (readCall levels (readExpr levels))
      (fun c => callJson c.1 (c.2.map Expr.json))
      (fun c options => callSource c.1 (c.2.map (·.source options))) := by
  intro s cs hs hahead
  refine Agrees.bind (parses_name.agrees hs hahead) ?_
  rintro name ⟨f, cs₁⟩ s₁ hname
  have hs₁ := hname.comes.ready hs
  refine hs₁.agrees_spaced_take (spans_literal _) hname.comes.ahead ?_
  rintro ⟨_, cs₂⟩ s₂ hopen
  have hs₂ := hopen.ready hs₁
  obtain ⟨s₃, hdrop, hspace⟩ := hs₂.run_dropSpace
  rw [hopen.ahead] at hspace
  have hs₃ := hspace.ready hs₂
  have hcomes : s.Comes (cs₂.dropWhile Text.isSpace) [name] s₃ :=
    hname.comes.trans (hopen.trans hspace)
  have hname₃ := hname.shows.keeps (hopen.trans hspace).keeps
  refine Agrees.step hdrop (Agrees.step (Session.run_sees (spans_literal _)) ?_)
  rw [hspace.ahead]
  unfold readArgs
  dsimp only
  rcases literalSpan? ")" (cs₂.dropWhile Text.isSpace) with _ | span
  · refine Agrees.bind (Session.agrees_commaList rfl hexpr (shrinks_expr levels) hs₃ hspace.ahead
      fun s => seesStart_expr s options levels) ?_
    rintro ids ⟨xs, cs₃⟩ s₄ ⟨hargs, hshows⟩
    exact agrees_close (hargs.ready hs₃) (hcomes.trans hargs) (hname₃.keeps hargs.keeps) hshows
  · exact Agrees.step rfl (agrees_close hs₃ hcomes hname₃ .nil)

/-- An expression of one part. -/
private theorem agrees_part {α : Type} {read : Reader α} {json : α → Json}
    {text : α → Options → String} {kind : String} {cs : List Char} (name : String)
    (wrap : α → Expr) (h : Parses grammar levels kind options read json text)
    (hwrite : ∀ write id options,
      expression.write write (.ofList [(name, .node id)]) options = write id options)
    (hjson : ∀ x, (wrap x).json = .ofMembers [(name, json x)])
    (hsource : ∀ x, (wrap x).source = text x)
    (hs : s.Ready grammar levels) (hahead : s.cursor.ahead = cs) :
    Agrees (Program.run (grammar.handler levels) (do
        return .ofList [(name, .node (← .parse kind options))]) s)
      ((read cs).map fun (x, rest) => (wrap x, rest))
      fun fields x s' => s.Comes x.2 fields.children s' ∧
        Session.Draws grammar s'.tree expression fields x.1.json x.1.source := by
  refine Agrees.bind_pure (h.agrees hs hahead) ?_
  rintro id ⟨x, rest⟩ s' hparsed
  refine ⟨hparsed.comes, ?_, fun options => ?_⟩
  · change Json.ofMembers [(name, s'.tree.json id)] = _
    rw [hparsed.shows.json_eq, hjson]
  · rw [hwrite, hparsed.shows.write_eq, hsource]

theorem builds_expr
    (hcall : Parses grammar levels "Call" options (readCallAt levels)
      (fun c => callJson c.1 (c.2.map Expr.json))
      (fun c options => callSource c.1 (c.2.map (·.source options)))) :
    Builds grammar levels expression options (readExpr (levels + 1)) Expr.json Expr.source := by
  intro s cs hs hahead
  subst hahead
  rw [readExpr_succ]
  refine Agrees.step (run_seesProduction s options (sees_text s options)) ?_
  rcases htext : literalSpan? "\"" s.cursor.ahead with _ | span
  · refine Agrees.step (run_seesProduction s options (sees_number s options)) ?_
    rcases hnumber : numberSpan? s.cursor.ahead with _ | span
    · refine Agrees.step (run_seesProduction s options (sees_name s options)) ?_
      rcases hname : nameSpan? s.cursor.ahead with _ | span
      · have hnone : deeper levels readName s.cursor.ahead = none :=
          deeper_eq_none (by simp [readName, hname]) levels
        simp only [hnone]
        exact ⟨_, _, Session.run_fail _⟩
      · refine Agrees.bind (parses_name.agrees hs rfl) ?_
        rintro name ⟨f, rest⟩ s' hparsed
        refine Agrees.step (Session.run_sees spans_open) ?_
        rw [hparsed.comes.ahead]
        dsimp only
        rcases openSpan? rest with _ | span
        · refine ⟨_, _, rfl, hparsed.comes, ?_, fun options => hparsed.shows.write_eq options⟩
          change Json.ofMembers [("identifier", s'.tree.json name)] = _
          rw [hparsed.shows.json_eq]
          rfl
        · obtain ⟨back, hrewind, hback⟩ := hparsed.run_rewind
          refine Agrees.step hrewind ?_
          refine (agrees_part "call" (fun c => .call c.1 c.2) hcall (fun _ _ _ => rfl) ?_ ?_
            (hback.ready hs) hback.ahead).mono ?_
          · intro c
            rw [Expr.json, Expr.jsons_eq_map]
          · intro c
            funext options
            rw [Expr.source, Expr.sources_eq_map]
          · rintro fields x s'' ⟨hcomes, hdraws⟩
            exact ⟨hback.trans hcomes, hdraws⟩
    · exact agrees_part "number" Expr.number parses_number (fun _ _ _ => rfl) (fun _ => rfl)
        (fun _ => rfl) hs rfl
  · exact agrees_part "text" Expr.text parses_text (fun _ _ _ => rfl) (fun _ => rfl)
      (fun _ => rfl) hs rfl

mutual

theorem parses_expr : (levels : Nat) →
    Parses grammar levels "Expression" options (readExpr levels) Expr.json Expr.source
  | 0 => parses_zero rfl
  | levels + 1 => parses_of_builds rfl (builds_expr (parses_call levels))

theorem parses_call : (levels : Nat) →
    Parses grammar levels "Call" options (readCallAt levels)
      (fun c => callJson c.1 (c.2.map Expr.json))
      (fun c options => callSource c.1 (c.2.map (·.source options)))
  | 0 => parses_zero rfl
  | levels + 1 => parses_of_builds rfl (builds_call (parses_expr levels))

end

/-! ## Bindings and scripts -/

private theorem word_eq (c : Cursor) :
    (c.plain.word == Word.lower "let") = startsBinding c.ahead := by
  have hword : c.plain.word = String.ofList
    (((c.ahead.dropWhile Text.isSpace).takeWhile Word.has).map Char.toLower) := rfl
  have hlet : Word.lower "let" = String.ofList ['l', 'e', 't'] := by decide
  rw [hword, hlet, startsBinding, Bool.eq_iff_iff, beq_iff_eq, beq_iff_eq, String.ofList_inj]

theorem agrees_word {cs : List Char} (hs : s.Ready grammar levels) (hahead : s.cursor.ahead = cs) :
    Agrees ((Program.takeThisWord (some "let")).run (grammar.handler levels) s) (readWord cs)
      fun _ x s' => s.Comes x.2 [] s' := by
  have hread : readWord cs = (readThisWord (some "let") cs).map fun x => ((), x.2) := by
    subst hahead
    have hword : (nextWord s.cursor.ahead == Word.lower "let") = startsBinding s.cursor.ahead :=
      word_eq s.cursor
    simp only [readWord, readThisWord, Cursor.wordFault?, hword]
    cases startsBinding s.cursor.ahead <;> rfl
  rw [hread]
  exact ((hs.agrees_takeThisWord hahead (some "let")).mono fun _ _ _ h => h.2).map

theorem builds_binding :
    Builds grammar levels letBinding options (readBinding levels) Binding.json Binding.source := by
  intro s cs hs hahead
  refine Agrees.bind (agrees_word hs hahead) ?_
  rintro _ ⟨_, cs₁⟩ s₁ hword
  have hs₁ := hword.ready hs
  refine Agrees.bind (parses_name.agrees hs₁ hword.ahead) ?_
  rintro name ⟨f, cs₂⟩ s₂ hname
  have hs₂ := hname.comes.ready hs₁
  refine hs₂.agrees_spaced_take (spans_literal _) hname.comes.ahead ?_
  rintro ⟨_, cs₃⟩ s₃ hequals
  have hs₃ := hequals.ready hs₂
  obtain ⟨s₄, hdrop, hspace⟩ := hs₃.run_dropSpace
  rw [hequals.ahead] at hspace
  have hs₄ := hspace.ready hs₃
  refine Agrees.step hdrop ?_
  refine Agrees.bind ((parses_expr levels).agrees hs₄ hspace.ahead) ?_
  rintro value ⟨x, cs₄⟩ s₅ hvalue
  have hs₅ := hvalue.comes.ready hs₄
  refine hs₅.agrees_spaced_take (spans_literal _) hvalue.comes.ahead ?_
  rintro ⟨_, rest⟩ s₆ hend
  have hcomes : s.Comes rest [name, value] s₆ :=
    hword.trans <| hname.comes.trans <| hequals.trans <| hspace.trans <| hvalue.comes.trans hend
  have hname₆ := hname.shows.keeps
    (hequals.trans <| hspace.trans <| hvalue.comes.trans hend).keeps
  have hvalue₆ := hvalue.shows.keeps hend.keeps
  refine ⟨_, s₆, rfl, hcomes, ?_, fun options => ?_⟩
  · change Json.ofMembers [("name", s₆.tree.json name), ("value", s₆.tree.json value)] = _
    rw [hname₆.json_eq, hvalue₆.json_eq]
    rfl
  · change "let " ++ grammar.write s₆.tree name options ++ " = " ++
      grammar.write s₆.tree value options ++ ";" = _
    rw [hname₆.write_eq, hvalue₆.write_eq]
    rfl

theorem parses_binding (levels : Nat) :
    Parses grammar levels "Let" options (deeper levels (readBinding (levels - 1)))
      Binding.json Binding.source :=
  parses_deeper rfl (fun _ => builds_binding) levels

theorem builds_script :
    Builds grammar levels script options (readScript levels) scriptJson scriptSource := by
  intro s cs hs hahead
  have hstart (s : Session) : grammar.seesStart letBinding options s =
      .ok (startsBinding s.cursor.ahead) :=
    congrArg Except.ok ((Cursor.seesWord_some s.cursor "let").trans (word_eq s.cursor))
  refine Agrees.bind (Session.agrees_series rfl (parses_binding levels) (shrinks_binding levels) hs
    hahead hstart) ?_
  rintro ids ⟨bindings, cs₁⟩ s₁ ⟨hcomes, hall⟩
  obtain ⟨s₂, hdrop, hspace⟩ := (hcomes.ready hs).run_dropSpace
  rw [hcomes.ahead] at hspace
  refine Agrees.step hdrop (Agrees.step Session.run_state ?_)
  have hend : s₂.cursor.atEnd = (cs₁.dropWhile Text.isSpace).isEmpty :=
    congrArg List.isEmpty hspace.ahead
  rw [hend]
  dsimp only
  split
  next hempty =>
    have hcomes₂ : s.Comes [] (ids ++ []) s₂ :=
      List.isEmpty_iff.1 hempty ▸ hcomes.trans hspace
    obtain ⟨hjsons, htexts⟩ := Session.json_of_showsAll (hall.imp fun _ _ h => h.keeps hspace.keeps)
    refine ⟨_, s₂, rfl, hcomes₂, ?_, fun options => ?_⟩
    · change Json.ofMembers [("statements", .array (ids.map s₂.tree.json))] = _
      rw [hjsons]
      rfl
    · change "\n".intercalate (ids.map (grammar.write s₂.tree · options)) = _
      rw [htexts]
      rfl
  next => exact ⟨_, _, Session.run_fail _⟩

theorem parses_script (levels : Nat) :
    Parses grammar levels "Script" options (deeper levels (readScript (levels - 1)))
      scriptJson scriptSource :=
  parses_deeper rfl (fun _ => builds_script) levels

end Descent.Script
