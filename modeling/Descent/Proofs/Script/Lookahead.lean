import Descent.Proofs.Program.Consumption
import Descent.Proofs.Script.Completeness
import Descent.Proofs.Script.Parsing
import Descent.Proofs.Session.Exchange

/-!
# Looking ahead in scripts

* `Announced`: productions that are at the cursor wherever they can be parsed;
* `Choice`, `choose`: what an expression can be, and the first of some choices at the cursor;
* `reordered`: the grammar of scripts with these choices in another order.

What is at the cursor is told from the text ahead. A text literal, a number and a name begin
differently, so it does not matter in which order an expression looks for them. A call is looked for
twice, by a pattern of its own and behind a name, and both looks find the same.
-/

namespace Descent

namespace Script

open Session (handle)

variable {levels : Nat} {options : Options} {s s' : Session} {id : NodeId} {kind : String}

/-! ## What is at the cursor -/

theorem spans_of_quote {cs : List Char} (h : (literalSpan? "\"" cs).isSome) :
    numberSpan? cs = none ∧ nameSpan? cs = none := by
  obtain ⟨⟨l, rest⟩, hspan⟩ := Option.isSome_iff_exists.1 h
  have hdigit : CharSet.digits.holds '"' = false := rfl
  obtain rfl : '"' :: rest = cs := append_of_literalSpan? hspan
  exact ⟨by simp [numberSpan?, unsignedSpan?, someOf?_cons, hdigit], rfl⟩

theorem numberSpan?_of_nameSpan? {cs : List Char} (h : (nameSpan? cs).isSome) :
    numberSpan? cs = none := by
  cases cs with
  | nil => cases h
  | cons c cs =>
    cases hc : startsName c with
    | true => exact numberSpan?_of_startsName hc
    | false => simp [nameSpan?, hc] at h

section
variable (s) (options : Options)

theorem sees_call : grammar.sees s (.production "Call") options =
    .ok (callSpan? s.cursor.ahead).isSome :=
  Cursor.sees_of_spans spans_call s.cursor

theorem sees_expression : grammar.sees s (.production "Expression") options =
    .ok ((literalSpan? "\"" s.cursor.ahead).isSome || (numberSpan? s.cursor.ahead).isSome ||
      (nameSpan? s.cursor.ahead).isSome) := by
  change (do
    if ← grammar.sees s (.production "Text") options then return true
    if ← grammar.sees s (.production "Number") options then return true
    grammar.sees s (.production "Identifier") options) = _
  rw [sees_text, sees_number, sees_name]
  cases literalSpan? "\"" s.cursor.ahead
  · cases numberSpan? s.cursor.ahead <;> rfl
  · rfl

theorem sees_let : grammar.sees s (.production "Let") options =
    .ok (s.cursor.plain.word == Word.lower "let") :=
  congrArg Except.ok (s.cursor.seesWord_some "let")

/-- No two of a text literal, a number and a name are at one place. -/
theorem sees_exclusive : ["Text", "Number", "Identifier"].Pairwise fun kind kind' =>
    ¬ (grammar.sees s (.production kind) options = .ok true ∧
      grammar.sees s (.production kind') options = .ok true) := by
  simp only [List.pairwise_cons, List.mem_cons, List.not_mem_nil, or_false, forall_eq_or_imp,
    forall_eq, sees_text, sees_number, sees_name, Except.ok.injEq]
  refine ⟨⟨?_, ?_⟩, ?_, nofun, .nil⟩
  · rintro ⟨htext, hnumber⟩
    rw [(spans_of_quote htext).1] at hnumber
    cases hnumber
  · rintro ⟨htext, hname⟩
    rw [(spans_of_quote htext).2] at hname
    cases hname
  · rintro ⟨hnumber, hname⟩
    rw [numberSpan?_of_nameSpan? hname] at hnumber
    cases hnumber

end

/-! ## What is parsed was at the cursor -/

/-- Wherever a production is parsed, it is at the cursor. -/
def Announced (kind : String) : Prop :=
  ∀ ⦃levels options s id s'⦄, grammar.handler levels (.parse kind options) s = (.ok id, s') →
    grammar.sees s (.production kind) options = .ok true

theorem announced_of_body {p : Production} (hp : grammar.find kind = .ok p)
    (hbody : ∀ levels options s, (p.body options).Ensures (grammar.handler levels) s
      fun _ _ => grammar.sees s (.production kind) options = .ok true) : Announced kind := by
  intro levels options s id s' h
  obtain ⟨q, below, fields, after, hq, -, hrun, -⟩ := Grammar.parse_ok h
  cases hp.symm.trans hq
  have hahead : { s with depth := s.depth + 1 }.cursor.ahead = s.cursor.ahead := rfl
  have hsees := hbody below options { s with depth := s.depth + 1 } hrun
  rw [Grammar.sees] at hsees ⊢
  rwa [Session.seesWithin_congr locals hahead] at hsees

theorem announced_identifier : Announced "Identifier" :=
  announced_of_body rfl fun _ options s => .take_bind spans_name fun l rest c hspan _ =>
    .const (by rw [sees_name, hspan]; rfl)

theorem announced_number : Announced "Number" :=
  announced_of_body rfl fun _ options s => .take_bind spans_number fun l rest c hspan _ =>
    .const (by rw [sees_number, hspan]; rfl)

theorem announced_text : Announced "Text" :=
  announced_of_body rfl fun _ options s => .take_bind (spans_literal _) fun l rest c hspan _ =>
    .const (by rw [sees_text, hspan]; rfl)

theorem announced_letBinding : Announced "Let" := by
  refine announced_of_body rfl fun levels options s => .perform_bind fun word c htake => ?_
  refine .const ?_
  have htake : s.cursor.takeThisWord (some "let") = (.ok word, c) := htake
  rw [sees_let]
  cases hword : s.cursor.plain.word == Word.lower "let" with
  | true => rfl
  | false =>
    have hfault : Cursor.wordFault? (some "let") s.cursor.plain.word =
        some "expected word: let" := by
      simp only [Cursor.wordFault?, hword]
      rfl
    obtain ⟨e, c', hc⟩ := Cursor.takeThisWord_of_fault hfault
    cases hc.symm.trans htake

/-- What is parsed as a name is what its pattern takes. -/
theorem ahead_of_name (h : grammar.handler levels (.parse "Identifier" options) s = (.ok id, s')) :
    ∃ l, nameSpan? s.cursor.ahead = some (l, s'.cursor.ahead) := by
  obtain ⟨p, below, fields, after, hp, -, hrun, -, hcursor, -⟩ := Grammar.parse_ok h
  cases hp
  rw [hcursor]
  have hbody : (identifier.body options).Ensures (grammar.handler below)
      { s with depth := s.depth + 1 } fun _ s' =>
        ∃ l, nameSpan? s.cursor.ahead = some (l, s'.cursor.ahead) :=
    .take_bind spans_name fun l rest c hspan hc => .done ⟨l, by rw [hspan]; simp [hc]⟩
  exact hbody hrun

theorem openSpan?_of_literalSpan? {cs l rest : List Char}
    (h : literalSpan? "(" (cs.dropWhile Text.isSpace) = some (l, rest)) :
    (openSpan? cs).isSome := by
  obtain hrest : '(' :: rest = cs.dropWhile Text.isSpace := append_of_literalSpan? h
  rw [openSpan?, ← hrest]
  rfl

theorem callSpan?_isSome {cs l rest : List Char} (h : nameSpan? cs = some (l, rest)) :
    (callSpan? cs).isSome = (openSpan? rest).isSome := by
  rw [callSpan?, h, Option.bind_some, Option.isSome_map]

theorem announced_call : Announced "Call" := by
  refine announced_of_body rfl fun levels options s => .request_bind fun name s₁ hname => ?_
  refine .perform_bind fun _ c hdrop => ?_
  obtain ⟨-, rfl⟩ := Prod.mk.inj hdrop
  refine .take_bind (spans_literal _) fun l rest c' hopen _ => .const ?_
  obtain ⟨l', hspan⟩ := ahead_of_name hname
  rw [s₁.cursor.dropSpace_movesTo.ahead] at hopen
  rw [sees_call, callSpan?_isSome hspan, openSpan?_of_literalSpan? hopen]

theorem announced_expression : Announced "Expression" := by
  refine announced_of_body rfl fun levels options s => ?_
  rw [sees_expression]
  refine .look_bind fun text htext => ?_
  rw [sees_text, Except.ok.injEq] at htext
  cases text with
  | true => exact .const (by rw [htext]; rfl)
  | false =>
  refine .look_bind fun number hnumber => ?_
  rw [sees_number, Except.ok.injEq] at hnumber
  cases number with
  | true => exact .const (by rw [htext, hnumber]; rfl)
  | false =>
  refine .look_bind fun name hname => ?_
  rw [sees_name, Except.ok.injEq] at hname
  cases name with
  | true => exact .const (by rw [htext, hnumber, hname]; rfl)
  | false => exact .refuse _

/-- Whatever is parsed, its production was at the cursor. -/
theorem announced (kind : String) : Announced kind := by
  intro levels options s id s' h
  rcases mem_kinds.1 (Grammar.parse_kind h) with rfl | rfl | rfl | rfl | rfl | rfl | rfl
  · exact announced_identifier h
  · exact announced_number h
  · exact announced_text h
  · exact announced_call h
  · exact announced_expression h
  · exact announced_letBinding h
  · rfl

/-! ## The order of choices -/

/-- What an expression can be: the production that is looked for, and the program that goes on where
it is. -/
structure Choice where
  kind : String
  body : Options → Program Fields

namespace Choice

def text : Choice where
  kind := "Text"
  body options := do return .ofList [("text", .node (← .parse "Text" options))]

def number : Choice where
  kind := "Number"
  body options := do return .ofList [("number", .node (← .parse "Number" options))]

/-- A name, which may be that of a call. -/
def named : Choice where
  kind := "Identifier"
  body options := do
    let name ← .parse "Identifier" options
    if ← .sees (.regex openPattern) then
      .rewind name
      return .ofList [("call", .node (← .parse "Call" options))]
    else return .ofList [("identifier", .node name)]

end Choice

def choices : List Choice := [.text, .number, .named]

/-- The first choice that is at the cursor. -/
def choose (options : Options) : List Choice → Program Fields
  | [] => .fail "expected an expression"
  | choice :: order => do
    if ← .seesProduction choice.kind options then choice.body options else choose options order

/-- An expression whose choices are looked for in the given order. -/
def expressionIn (order : List Choice) : Production :=
  { expression with
    starts := fun sees _ options => order.anyM fun choice => sees (.production choice.kind) options
    body := fun options => choose options order }

/-- The grammar of scripts with such expressions. -/
def reordered (order : List Choice) : Grammar :=
  ⟨[identifier, number, text, call, expressionIn order, letBinding, script], grammar.nodup⟩

theorem expressionIn_choices : expressionIn choices = expression := by
  have hstarts : (expressionIn choices).starts = expression.starts := by
    funext sees s options
    simp only [expressionIn, choices, Choice.text, Choice.number, Choice.named, expression,
      List.anyM]
    rcases sees (.production "Text") options with e | _ | _
    · rfl
    · rcases sees (.production "Number") options with e | _ | _
      · rfl
      · rcases sees (.production "Identifier") options with e | _ | _ <;> rfl
      · rfl
    · rfl
  exact Production.mk.injEq .. ▸ ⟨rfl, hstarts, rfl, rfl⟩

theorem reordered_choices : reordered choices = grammar := by
  simp only [reordered, expressionIn_choices, grammar]

/-- Whether a choice is at the cursor. -/
def Choice.seen (choice : Choice) (s : Session) (options : Options) : Bool :=
  (grammar.sees s (.production choice.kind) options).toOption.getD false

section
variable (s) (options : Options)

theorem Choice.seen_text : Choice.text.seen s options = (literalSpan? "\"" s.cursor.ahead).isSome :=
  congrArg (·.toOption.getD false) (sees_text s options)

theorem Choice.seen_number : Choice.number.seen s options = (numberSpan? s.cursor.ahead).isSome :=
  congrArg (·.toOption.getD false) (sees_number s options)

theorem Choice.seen_named : Choice.named.seen s options = (nameSpan? s.cursor.ahead).isSome :=
  congrArg (·.toOption.getD false) (sees_name s options)

end

/-- In any order, a choice is looked for as it is on its own. -/
theorem sees_choice {choice : Choice} (hp : choice ∈ choices) (order : List Choice) (fuel : Nat) :
    (reordered order).seesWithin s (fuel + 1) (.production choice.kind) options =
      .ok (choice.seen s options) := by
  simp only [choices, List.mem_cons, List.not_mem_nil, or_false] at hp
  rcases hp with rfl | rfl | rfl
  · rw [Choice.seen_text]
    exact sees_text s options
  · rw [Choice.seen_number]
    exact sees_number s options
  · rw [Choice.seen_named]
    exact sees_name s options

theorem sees_seen {choice : Choice} (hp : choice ∈ choices) (s : Session) (options : Options) :
    grammar.sees s (.production choice.kind) options = .ok (choice.seen s options) :=
  reordered_choices ▸ sees_choice hp choices _

/-- At most one choice is at the cursor. -/
theorem seen_exclusive (s : Session) (options : Options) :
    choices.Pairwise fun choice choice' => ¬ (choice.seen s options ∧ choice'.seen s options) := by
  have hkinds : choices.map Choice.kind = ["Text", "Number", "Identifier"] := rfl
  have hexclusive := sees_exclusive s options
  rw [← hkinds, List.pairwise_map] at hexclusive
  refine hexclusive.imp_of_mem fun hp hp' hne hseen => hne ?_
  exact ⟨(sees_seen hp s options).trans (congrArg Except.ok hseen.1),
    (sees_seen hp' s options).trans (congrArg Except.ok hseen.2)⟩

theorem find?_perm {α : Type} {b : α → Bool} {l l' : List α} (h : l.Perm l')
    (hone : l.Pairwise fun x y => ¬ (b x ∧ b y)) : l.find? b = l'.find? b := by
  induction h with
  | nil => rfl
  | cons x _ ih => rw [List.find?_cons, List.find?_cons, ih (List.pairwise_cons.1 hone).2]
  | swap x y l =>
    have hxy := (List.pairwise_cons.1 hone).1 x (.head _)
    simp only [List.find?_cons]
    cases hx : b x with
    | false => rfl
    | true =>
      cases hy : b y with
      | false => rfl
      | true => exact absurd ⟨hy, hx⟩ hxy
  | trans h₁ _ ih₁ ih₂ =>
    exact (ih₁ hone).trans (ih₂ ((h₁.pairwise_iff fun hne hyx => hne hyx.symm).1 hone))

section
variable {order : List Choice} (hsub : ∀ choice ∈ order, choice ∈ choices)
include hsub

theorem anyM_choices {look : Choice → Except Failure Bool}
    (hlook : ∀ choice ∈ choices, look choice = .ok (choice.seen s options)) :
    order.anyM look = .ok (order.any (·.seen s options)) := by
  induction order with
  | nil => rfl
  | cons choice order ih =>
    rw [List.forall_mem_cons] at hsub
    rw [List.anyM, hlook choice hsub.1, List.any_cons]
    cases choice.seen s options with
    | true => rfl
    | false => exact ih hsub.2

theorem run_choose : (choose options order).run (grammar.handler levels) s =
    match order.find? (·.seen s options) with
    | some choice => (choice.body options).run (grammar.handler levels) s
    | none => (Program.fail "expected an expression").run (grammar.handler levels) s := by
  induction order with
  | nil => rfl
  | cons choice order ih =>
    rw [List.forall_mem_cons] at hsub
    have hsees := sees_seen hsub.1 s options
    rw [choose, Program.run_bind, run_seesProduction s options hsees, List.find?_cons]
    cases choice.seen s options with
    | true => rfl
    | false => exact ih hsub.2

end

theorem find?_reordered (order : List Choice) (hkind : kind ≠ "Expression") :
    (reordered order).find? kind = grammar.find? kind := by
  have hname : ("Expression" == kind) = false := beq_false_of_ne hkind.symm
  have hold : (expression.name == kind) = false := hname
  have hnew : ((expressionIn order).name == kind) = false := hname
  simp only [Grammar.find?, reordered, grammar, List.find?_cons, hold, hnew]

/-- No production but that of expressions looks for another. -/
theorem starts_of_ne {p : Production} (hp : p ∈ grammar.productions) (hname : p.name ≠ "Expression")
    (sees sees' : Pattern → Options → Except Failure Bool) : p.starts sees = p.starts sees' := by
  simp only [grammar, List.mem_cons, List.not_mem_nil, or_false] at hp
  rcases hp with rfl | rfl | rfl | rfl | rfl | rfl | rfl
  · rfl
  · rfl
  · rfl
  · rfl
  · exact absurd rfl hname
  · rfl
  · rfl

section
variable {order : List Choice} (h : order.Perm choices)
include h

theorem anyM_perm {look look' : Choice → Except Failure Bool}
    (hlook : ∀ choice ∈ choices, look choice = .ok (choice.seen s options))
    (hlook' : ∀ choice ∈ choices, look' choice = .ok (choice.seen s options)) :
    order.anyM look = choices.anyM look' := by
  rw [anyM_choices (fun _ => h.mem_iff.1) hlook, anyM_choices (fun _ => id) hlook', h.any_eq]

theorem sees_reordered : (reordered order).sees = grammar.sees := by
  have hlook (order : List Choice) (s : Session) (options : Options) : ∀ choice ∈ choices,
      (reordered order).seesWithin s 6 (.production choice.kind) options =
        .ok (choice.seen s options) := fun choice hp => sees_choice hp order 5
  funext s q options
  cases q with
  | literal | regex => rfl
  | production kind =>
    by_cases hkind : kind = "Expression"
    · subst hkind
      rw [← reordered_choices]
      exact anyM_perm h (hlook order s options) (hlook choices s options)
    · change (do
        let p ← (reordered order).find kind
        p.starts ((reordered order).seesWithin s 6) s options) = do
          let p ← grammar.find kind
          p.starts (grammar.seesWithin s 6) s options
      have hfind : (reordered order).find kind = grammar.find kind := by
        rw [Grammar.find, find?_reordered order hkind, Grammar.find]
      rw [hfind]
      cases hp : grammar.find kind with
      | error e => rfl
      | ok p =>
        have hne : p.name ≠ "Expression" := (Grammar.name_eq_of_find hp).symm ▸ hkind
        exact congrFun (congrFun (starts_of_ne (Grammar.mem_of_find hp) hne _ _) s) options

theorem same_expression : grammar.Same expression (expressionIn order) where
  name := rfl
  starts options s := by
    rw [← expressionIn_choices]
    exact anyM_perm h (fun _ hp => sees_seen hp s options) fun _ hp => sees_seen hp s options
  body levels options s := by
    rw [← expressionIn_choices]
    change (choose options order).run _ s = (choose options choices).run _ s
    have hfind : choices.find? (·.seen s options) = order.find? (·.seen s options) :=
      find?_perm h.symm (seen_exclusive s options)
    rw [run_choose fun _ => h.mem_iff.1, run_choose fun _ => id, hfind]
  write := rfl

/-- In whatever order the choices of expressions are looked for, every request comes to the same. -/
theorem handler_reordered (levels : Nat) :
    (reordered order).handler levels = grammar.handler levels := by
  refine Grammar.handler_of_same (sees_reordered h) (fun kind => ?_) levels
  by_cases hkind : kind = "Expression"
  · subst hkind
    exact .some (same_expression h)
  · rw [find?_reordered order hkind]
    cases grammar.find? kind with
    | none => exact .none
    | some p => exact .some (.refl _ p)

end

/-! ## The branch of calls -/

/-- What is chosen asks for what the first choice at the cursor asks for. -/
theorem asks_choose {order : List Choice} (hsub : ∀ choice ∈ order, choice ∈ choices)
    {kind : String} {options' : Options} :
    (choose options order).Asks (handle grammar) s (.parse kind options') s' ↔
      ∃ choice, order.find? (·.seen s options) = some choice ∧
        (choice.body options).Asks (handle grammar) s (.parse kind options') s' := by
  induction order with
  | nil =>
    refine iff_of_false (fun h => ?_) nofun
    obtain ⟨h, -⟩ | ⟨⟨⟩, -⟩ := Program.asks_request_bind.1 h
    cases h
  | cons choice order ih =>
    rw [List.forall_mem_cons] at hsub
    have hsees : s.handle grammar (.sees (.production choice.kind) options) =
        (.ok (choice.seen s options), s) :=
      (Session.handle_eq grammar _ s).trans (congrArg (·, s) (sees_seen hsub.1 s options))
    have hask :
        (choose options (choice :: order)).Asks (handle grammar) s (.parse kind options') s' ↔
        (if choice.seen s options then choice.body options else choose options order).Asks
          (handle grammar) s (.parse kind options') s' := by
      refine Program.asks_request_bind.trans ⟨?_, fun h => .inr ⟨_, s, hsees, h⟩⟩
      rintro (⟨h, -⟩ | ⟨x, after, hanswer, h⟩)
      · cases h
      · obtain ⟨⟨⟩, rfl⟩ := Prod.mk.inj (hsees.symm.trans hanswer)
        exact h
    rw [hask, List.find?_cons]
    cases choice.seen s options with
    | true => simp
    | false => simpa using ih hsub.2

/-- A program that parses one node asks for no other. -/
theorem asks_parse_bind {name kind kind' : String} {options' : Options} :
    (do return .ofList [(name, .node (← .parse kind options))] : Program Fields).Asks
      (handle grammar) s (.parse kind' options') s' → kind' = kind := by
  intro h
  obtain ⟨h, -⟩ | ⟨x, after, -, h⟩ := Program.asks_request_bind.1 h
  · exact (Request.parse.inj h).1
  · cases h

/-- Where a name is and a level is left, it is parsed. -/
theorem parse_name {l rest : List Char} (hspan : nameSpan? s.cursor.ahead = some (l, rest))
    (hdepth : s.depth < s.cursor.settings.maxDepth) (options : Options) :
    ∃ id s', s.handle grammar (.parse "Identifier" options) = (.ok id, s') ∧
      s.cursor.MovesTo rest s'.cursor := by
  obtain ⟨c, htake, hmoves⟩ := Cursor.take_of_span_some spans_name hspan
    (some "expected an identifier")
  have hrun : (identifier.body options).run (handle grammar) { s with depth := s.depth + 1 } =
      (.ok (.ofList [("name", .string (String.ofList l))]),
        { s with cursor := c, depth := s.depth + 1 }) := by
    have hact (levels : Nat) :
        (Program.take (.regex namePattern) (some "expected an identifier")).run
          (grammar.handler levels) { s with depth := s.depth + 1 } =
        (.ok (String.ofList l), { s with cursor := c, depth := s.depth + 1 }) :=
      Session.run_act (s := { s with depth := s.depth + 1 })
        (a := .take (.regex namePattern) (some "expected an identifier")) htake
    rw [Session.run_handle, identifier, Program.run_bind, hact]
    rfl
  have hparse := Session.parse_of_ok hdepth hrun (.nil _)
  exact ⟨_, _, (Grammar.handle_parse rfl options s).trans hparse, hmoves⟩

section
variable (s : Session) (options : Options)

theorem handle_sees_open : s.handle grammar (.act (.sees (.regex openPattern))) =
    (.ok (openSpan? s.cursor.ahead).isSome, s) :=
  (Session.handle_eq grammar _ s).trans
    (congrArg (·, s) (Cursor.sees_of_spans spans_open s.cursor))

theorem asks_expression_iff {kind : String} {options' : Options} :
    (expression.body options).Asks (handle grammar) s (.parse kind options') s' ↔
      ∃ choice, choices.find? (·.seen s options) = some choice ∧
        (choice.body options).Asks (handle grammar) s (.parse kind options') s' :=
  asks_choose fun _ hp => hp

end

/-- An expression asks for a call only where there is one. -/
theorem callSpan?_of_asks
    (h : (expression.body options).Asks (handle grammar) s (.parse "Call" options) s') :
    (callSpan? s.cursor.ahead).isSome := by
  obtain ⟨choice, hfind, h⟩ := (asks_expression_iff s options).1 h
  have hp := List.mem_of_find?_eq_some hfind
  simp only [choices, List.mem_cons, List.not_mem_nil, or_false] at hp
  rcases hp with rfl | rfl | rfl
  · exact absurd (asks_parse_bind h) (by decide)
  · exact absurd (asks_parse_bind h) (by decide)
  · obtain ⟨h, -⟩ | ⟨id, s₁, hparse, h⟩ := Program.asks_request_bind.1 h
    · exact absurd (Request.parse.inj h).1 (by decide)
    obtain ⟨h, -⟩ | ⟨opened, s₂, hopen, h⟩ := Program.asks_request_bind.1 h
    · cases h
    obtain ⟨l, hspan⟩ := ahead_of_name hparse
    obtain ⟨⟨⟩, rfl⟩ := Prod.mk.inj ((handle_sees_open s₁).symm.trans hopen)
    rw [callSpan?_isSome hspan]
    cases hopened : (openSpan? s₁.cursor.ahead).isSome with
    | true => rfl
    | false =>
      rw [hopened] at h
      cases h

/-- Where a name begins, nothing else is chosen. -/
theorem find?_named (h : (nameSpan? s.cursor.ahead).isSome) (options : Options) :
    choices.find? (·.seen s options) = some .named := by
  have hseen : Choice.named.seen s options = true := (Choice.seen_named s options).trans h
  obtain ⟨htext, hnumber⟩ := List.pairwise_cons.1 (seen_exclusive s options)
  have htext := htext .named (by simp)
  have hnumber := (List.pairwise_cons.1 hnumber).1 .named (by simp)
  simp only [hseen, and_true, Bool.not_eq_true] at htext hnumber
  simp [choices, htext, hnumber, hseen]

/-- Where there is a call and a level is left for its name, an expression asks for a call. -/
theorem exists_asks_call (h : (callSpan? s.cursor.ahead).isSome)
    (hdepth : s.depth < s.cursor.settings.maxDepth) (options : Options) :
    ∃ s', (expression.body options).Asks (handle grammar) s (.parse "Call" options) s' := by
  obtain ⟨span, hspan⟩ := Option.isSome_iff_exists.1 h
  obtain ⟨⟨l, rest⟩, hname, -⟩ := Option.bind_eq_some_iff.1 hspan
  rw [callSpan?_isSome hname] at h
  obtain ⟨id, s₁, hparse, hmoves⟩ := parse_name hname hdepth options
  obtain ⟨node, hnode, -, hstart⟩ := Grammar.parse_start hparse
  obtain ⟨back, hrewind, -⟩ := Session.exists_rewind hmoves ⟨node, hnode, hstart⟩
  have hfind := find?_named (Option.isSome_of_eq_some hname) options
  refine ⟨{ s₁ with cursor := back }, (asks_expression_iff s options).2 ⟨.named, hfind, ?_⟩⟩
  refine Program.asks_request_bind.2 (.inr ⟨id, s₁, hparse, ?_⟩)
  refine Program.asks_request_bind.2 (.inr ⟨true, s₁, ?_, ?_⟩)
  · rw [← h, ← hmoves.ahead]
    exact handle_sees_open s₁
  · exact Program.asks_request_bind.2
      (.inr ⟨(), _, (Session.handle_eq grammar _ s₁).trans hrewind, .first⟩)

/-- What a bound pattern takes is the span of it. -/
theorem extent?_of_spans {b : BoundRegex} {span? : List Char → Option (List Char × List Char)}
    (hb : (Pattern.regex b).Spans span?) (cs : List Char) :
    b.extent? cs = (span? cs).map (·.1.length) :=
  Except.ok.inj (hb.extent?_eq cs)

/-- The pattern of calls matches where that of names does and a parenthesis follows. -/
theorem extent?_call_iff (cs : List Char) : (callPattern.extent? cs).isSome ↔
    ∃ n, namePattern.extent? cs = some n ∧ (openPattern.extent? (cs.drop n)).isSome := by
  rw [extent?_of_spans spans_call, extent?_of_spans spans_name, Option.isSome_map]
  cases hname : nameSpan? cs with
  | none => simp [callSpan?, hname]
  | some span =>
    have hdrop : cs.drop span.1.length = span.2 := by
      rw [← append_of_nameSpan? hname, List.drop_left]
    simp [callSpan?_isSome hname, extent?_of_spans spans_open, hdrop]

/-- **Lookahead agrees with parsing.** Wherever a session stands, what can be parsed there is seen
there. No two of the choices of an expression are seen at one place, so in whatever order they are
looked for, every request comes to the same. An expression goes on to parse a call exactly where a
call is seen, if there is a level left for its name; this is where the pattern of names matches and
a parenthesis follows. -/
theorem lookahead_agrees (s : Session) (kind : String) (options : Options) :
    (∀ id s', s.parse grammar kind options = (.ok id, s') →
      grammar.sees s (.production kind) options = .ok true) ∧
    (["Text", "Number", "Identifier"].Pairwise fun kind kind' =>
      ¬ (grammar.sees s (.production kind) options = .ok true ∧
        grammar.sees s (.production kind') options = .ok true)) ∧
    reordered choices = grammar ∧
    (∀ order, order.Perm choices → ∀ r,
      s.handle (reordered order) r = s.handle grammar r) ∧
    (s.depth < s.cursor.settings.maxDepth →
      ((∃ s', (expression.body options).Asks (handle grammar) s (.parse "Call" options) s') ↔
        grammar.sees s (.production "Call") options = .ok true)) ∧
    (grammar.sees s (.production "Call") options = .ok true ↔
      ∃ n, namePattern.extent? s.cursor.ahead = some n ∧
        (openPattern.extent? (s.cursor.ahead.drop n)).isSome) := by
  have hcall : grammar.sees s (.production "Call") options = .ok true ↔
      (callSpan? s.cursor.ahead).isSome := by
    rw [sees_call, Except.ok.injEq]
  refine ⟨fun id s' h => announced kind h, sees_exclusive s options, reordered_choices,
    fun order horder r => ?_, fun hdepth => ?_, ?_⟩
  · exact congrFun (congrFun (handler_reordered horder _) r) s
  · rw [hcall]
    exact ⟨fun ⟨s', h⟩ => callSpan?_of_asks h, fun h => exists_asks_call h hdepth options⟩
  · rw [hcall, ← extent?_call_iff, extent?_of_spans spans_call, Option.isSome_map]

/-- A call with space behind its name. The choices of expressions can be looked for from the last to
the first. -/
theorem lookahead_agrees_spaced :
    let s := Session.ofText "f (a)" grammar
    (∃ id s', s.parse grammar "Call" none = (.ok id, s')) ∧
      grammar.sees s (.production "Call") none = .ok true ∧
      s.depth < s.cursor.settings.maxDepth ∧
      (∃ s', (expression.body none).Asks (handle grammar) s (.parse "Call" none) s') ∧
      (∃ n, namePattern.extent? s.cursor.ahead = some n ∧
        (openPattern.extent? (s.cursor.ahead.drop n)).isSome) ∧
      choices.reverse ≠ choices ∧
      s.handle (reordered choices.reverse) (.parse "Expression" none) =
        s.handle grammar (.parse "Expression" none) := by
  intro s
  obtain ⟨hseen, -, -, horder, hasks, hextent⟩ := lookahead_agrees s "Call" none
  have hok : (s.parse grammar "Call" none).1.toOption.isSome := by decide +kernel
  have hdepth : s.depth < s.cursor.settings.maxDepth := by decide
  have hne : choices.reverse ≠ choices := fun h =>
    absurd (congrArg (·.map Choice.kind) h) (by decide)
  rcases hparse : s.parse grammar "Call" none with ⟨_ | id, s'⟩
  · rw [hparse] at hok
    cases hok
  · have hcall := hseen id s' hparse
    exact ⟨⟨id, s', rfl⟩, hcall, hdepth, (hasks hdepth).2 hcall, hextent.1 hcall, hne,
      horder _ choices.reverse_perm _⟩

end Script
end Descent
