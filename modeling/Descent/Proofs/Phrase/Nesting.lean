import Descent.Proofs.Cursor.Prediction
import Descent.Proofs.Phrase.Layout
import Descent.Proofs.Phrase.RoundTrip
import Descent.Proofs.Session.Depth
import Descent.Proofs.Session.Success

/-!
# Words in parentheses

* `enclose`: a text with so many parentheses on each side;
* `Nest.around`: what is read of a word in so many parentheses.

A parse takes its parenthesis before it asks for what is inside. So the parse that has no level left
finds the cursor behind as many parentheses as there are levels (`parse_too_deep`), and a word in
fewer parentheses is reached (`readNested_enclose`).
-/

namespace Descent.Phrase

open Session (handler_parse parse_of_error run_act)

variable {levels k : Nat} {options : Options} {s s' : Session} {id : NodeId} {nest : Nest}
  {w : String} {cs l r rest : List Char}

/-! ## Parentheses -/

/-- A text with `k` parentheses on each side. -/
def enclose (k : Nat) (cs : List Char) : List Char :=
  List.replicate k '(' ++ cs ++ List.replicate k ')'

theorem enclose_zero (cs : List Char) : enclose 0 cs = cs :=
  List.append_nil cs

theorem enclose_succ (k : Nat) (cs : List Char) :
    enclose (k + 1) cs = '(' :: (enclose k cs ++ [')']) := by
  rw [enclose, enclose, List.replicate_succ, List.replicate_succ', List.append_assoc,
    List.append_assoc, List.append_assoc]
  rfl

theorem replicate_prefix_enclose {n : Nat} (h : n ≤ k) (cs : List Char) :
    List.replicate n '(' <+: enclose k cs := by
  have hopen : List.replicate n '(' <+: List.replicate k '(' :=
    List.prefix_replicate_iff.2 ⟨by rwa [List.length_replicate], by rw [List.length_replicate]⟩
  rw [enclose, List.append_assoc]
  exact hopen.trans (List.prefix_append ..)

/-- A word in `k` parentheses. -/
def Nest.around (w : String) : Nat → Nest
  | 0 => .word w
  | k + 1 => .inner (around w k)

/-- How many phrases a phrase consists of. -/
def Nest.size : Nest → Nat
  | word _ => 1
  | inner nest => nest.size + 1

theorem Nest.size_around (w : String) (k : Nat) : (around w k).size = k + 1 := by
  induction k with
  | zero => rfl
  | succ k ih => rw [around, size, ih]

theorem Nest.source_around (w : String) (k : Nat) :
    (around w k).source = String.ofList (enclose k w.toList) := by
  refine String.toList_inj.1 ?_
  rw [String.toList_ofList]
  induction k with
  | zero => exact (enclose_zero _).symm
  | succ k ih => simp [around, source, ih, enclose_succ]

/-- A word in fewer parentheses than there are levels is read. -/
theorem readNested_enclose (hk : k < levels) (hne : l ≠ []) (hl : ∀ c ∈ l, Word.has c)
    (hr : ∀ c ∈ r.head?, c = ')') :
    readNested levels (enclose k l ++ r) = some (.around (lowered l) k, r) := by
  induction k generalizing levels r with
  | zero =>
    obtain ⟨levels, rfl⟩ := Nat.exists_eq_succ_of_ne_zero hk.ne'
    have hstops : Stops Word.has r := fun c hc => hr c hc ▸ rfl
    have hspace : Stops Text.isSpace r := fun c hc => hr c hc ▸ rfl
    rw [enclose_zero, readNested_word hne hl hstops, hspace.dropWhile]
    rfl
  | succ k ih =>
    obtain ⟨levels, rfl⟩ := Nat.exists_eq_add_of_lt hk
    have hlt : k < k + 1 + levels := by omega
    -- What follows inside is a closing parenthesis, whatever follows outside.
    have hclose : ∀ c ∈ (')' :: r).head?, c = ')' := by rintro _ ⟨⟩; rfl
    rw [enclose_succ, List.cons_append, List.append_assoc]
    exact readNested_inner (ih hlt hclose)

/-! ## Nodes -/

theorem find_nested : grammar.find "Nested" = .ok nested := rfl

/-- A parse adds a node for each phrase that a phrase consists of. -/
theorem size_parse_nested (hread : readNested levels s.cursor.ahead = some (nest, rest))
    (h : grammar.handler levels (.parse "Nested" options) s = (.ok id, s')) :
    s'.tree.size = s.tree.size + nest.size := by
  induction levels generalizing s s' id nest rest with
  | zero => cases hread
  | succ levels ih =>
    obtain ⟨p, below, fields, after, hp, hbelow, hrun, -, -, htree⟩ := Grammar.parse_ok h
    cases find_nested.symm.trans hp
    cases hbelow
    have hbody : (nested.body options).Ensures (grammar.handler levels)
        { s with depth := s.depth + 1 }
        fun _ after => after.tree.size + 1 = s.tree.size + nest.size := by
      unfold readNested at hread
      refine .perform_bind fun opened c htake => ?_
      rcases hopen : literalSpan? "(" s.cursor.ahead with _ | ⟨l, cs⟩ <;> rw [hopen] at hread
      · obtain ⟨⟨word, _⟩, -, heq⟩ := Option.map_eq_some_iff.1 hread
        cases heq
        cases (Cursor.take?_of_span_none (spans_literal "(") hopen).symm.trans htake
        exact .act_bind fun word c => .done rfl
      · obtain ⟨⟨inner, _⟩, hinner, hread⟩ := Option.bind_eq_some_iff.1 hread
        obtain ⟨⟨_, _⟩, -, heq⟩ := Option.bind_eq_some_iff.1 hread
        cases heq
        obtain ⟨c', htake', hmoves⟩ := Cursor.take?_of_span_some (spans_literal "(") hopen
        cases htake'.symm.trans htake
        refine .request_bind fun id s₁ hparse => .act_bind fun _ c₁ => .done ?_
        have hsize := ih (hmoves.ahead ▸ hinner) hparse
        rw [Nest.size, ← Nat.add_assoc, ← hsize]
    rw [htree, Tree.size_append, hbody hrun]

/-! ## The limit -/

/-- Behind a parenthesis a phrase fails as the one inside does. -/
theorem run_nested_error {m : String} {c : Cursor} {e : Failure}
    (htake : s.cursor.take? (.literal "(") = (.ok (some m), c))
    (hinner : grammar.handler levels (.parse "Nested" options) { s with cursor := c } =
      (.error e, s')) :
    (nested.body options).run (grammar.handler levels) s = (.error e, s') := by
  have hact : (Program.take? (.literal "(")).run (grammar.handler levels) s =
      (.ok (some m), { s with cursor := c }) := run_act (a := .take? (.literal "(")) htake
  have hask : (Program.parse "Nested" options).run (grammar.handler levels)
      { s with cursor := c } = (.error e, s') := hinner
  refine (Program.run_bind (Program.take? (.literal "(")) _ _).trans ?_
  rw [hact]
  refine (Program.run_bind (Program.parse "Nested" options) _ _).trans ?_
  rw [hask]

/-- Behind as many parentheses as there are levels left, a parse is refused. -/
theorem parse_too_deep (options : Options) (hdepth : s.depth + levels = s.cursor.settings.maxDepth)
    (hahead : s.cursor.ahead = List.replicate levels '(' ++ rest) :
    ∃ c d, grammar.handler levels (.parse "Nested" options) s =
        (.error (.tooDeep s.cursor.settings.maxDepth s.cursor.settings.maxDepth d),
          { s with cursor := c }) ∧
      d.position.offset = s.cursor.offset + levels := by
  induction levels generalizing s with
  | zero =>
    have hfull : s.depth = s.cursor.settings.maxDepth := hdepth
    obtain ⟨d, hfailure, hposition⟩ := s.tooDeep_eq rfl hfull
    refine ⟨s.cursor, d, ?_, congrArg Position.offset hposition⟩
    rw [handler_parse find_nested]
    unfold Production.parse
    rw [if_pos (Nat.le_of_eq hfull.symm), hfailure]
    rfl
  | succ levels ih =>
    have hopen : literalSpan? "(" s.cursor.ahead =
        some (['('], List.replicate levels '(' ++ rest) := by
      rw [hahead, List.replicate_succ]
      exact (literalSpan?_singleton rfl _).trans (if_pos rfl)
    obtain ⟨c, htake, hmoves⟩ := Cursor.take?_of_span_some (spans_literal "(") hopen
    have hoffset : c.offset = s.cursor.offset + 1 := (Cursor.take?_passes htake).offset
    have hleft : s.depth + 1 + levels = c.settings.maxDepth := by
      rw [hmoves.settings, ← hdepth, Nat.add_right_comm, Nat.add_assoc]
    obtain ⟨c', d, hinner, hplace⟩ :=
      ih (s := { s with cursor := c, depth := s.depth + 1 }) hleft hmoves.ahead
    refine ⟨c', d, ?_, by rw [hplace, hoffset, Nat.add_right_comm, Nat.add_assoc]⟩
    rw [handler_parse find_nested, ← hmoves.settings]
    exact parse_of_error (by omega) (run_nested_error htake hinner)

section
variable {settings : Settings}
  (hs : Session.withSettings (String.ofList (enclose k w.toList)) grammar settings = .ok s)
include hs

/-- With more levels than parentheses a word is parsed. -/
theorem parse_enclose (hw : IsPlain w) (hk : k < settings.maxDepth) (options : Options) :
    ∃ id s', s.parse grammar "Nested" options = (.ok id, s') ∧ s'.tree.size = k + 1 ∧
      s'.cursor.atEnd ∧ ∀ render, grammar.write s'.tree id render =
        String.ofList (enclose k (w.toList.map Char.toLower)) := by
  obtain ⟨-, hahead, -, -, htree⟩ := Session.withSettings_ok hs
  rw [String.toList_ofList] at hahead
  have hread : readNested settings.maxDepth (enclose k w.toList) =
      some (.around (lowered w.toList) k, []) := by
    have h := readNested_enclose (r := []) hk hw.ne_nil hw.has nofun
    rwa [List.append_nil] at h
  have hagrees : Agrees (s.parse grammar "Nested" options) (readNested settings.maxDepth _) _ :=
    (parses_nested settings.maxDepth).agrees_parse hs
  rw [String.toList_ofList, hread] at hagrees
  obtain ⟨id, s', hparse, hparsed⟩ := hagrees
  refine ⟨id, s', hparse, ?_, ?_, fun render => ?_⟩
  · have hhandler := (Session.withSettings_parse hs "Nested" options).symm.trans hparse
    rw [size_parse_nested (hahead ▸ hread) hhandler, htree, Nest.size_around]
    exact Nat.zero_add _
  · rw [Cursor.atEnd, hparsed.comes.ahead]
    rfl
  · rw [hparsed.shows.write_eq, Nest.source_around, lowered, String.toList_ofList]

/-- With no more levels than parentheses a parse is refused. -/
theorem parse_enclose_too_deep (hk : settings.maxDepth ≤ k) (options : Options) :
    ∃ d s', s.parse grammar "Nested" options =
        (.error (.tooDeep settings.maxDepth settings.maxDepth d), s') ∧
      d.position.offset = settings.maxDepth ∧ s'.depth = 0 ∧ s'.tree.size = 0 := by
  obtain ⟨-, hahead, hdepth, hsettings, htree⟩ := Session.withSettings_ok hs
  rw [String.toList_ofList] at hahead
  obtain ⟨rest, hrest⟩ := replicate_prefix_enclose hk w.toList
  have hfull : s.depth + settings.maxDepth = s.cursor.settings.maxDepth := by
    rw [hdepth, hsettings, Nat.zero_add]
  obtain ⟨c, d, hparse, hoffset⟩ := parse_too_deep options hfull
    (hahead.trans hrest.symm)
  rw [hsettings] at hparse
  rw [Session.withSettings_offset hs, Nat.zero_add] at hoffset
  refine ⟨d, { s with cursor := c }, ?_, hoffset, hdepth, by rw [htree]; rfl⟩
  exact (Session.withSettings_parse hs "Nested" options).trans hparse

/-- **The limit of nesting.** A word in `k` parentheses, however it is capitalized, is parsed
exactly if there are more levels than these. Then there is a node for it and one for each
parenthesis, the cursor is at the end, and the node is written as it was, with the word in lower
case. With no more levels than parentheses the parse is refused behind as many as there are levels.
It leaves no node, and no parse is in progress any more. -/
theorem nesting_limit (hw : IsPlain w) (options : Options) :
    ((∃ id s', s.parse grammar "Nested" options = (.ok id, s')) ↔ k < settings.maxDepth) ∧
    (∀ id s', s.parse grammar "Nested" options = (.ok id, s') →
      s'.tree.size = k + 1 ∧ s'.cursor.atEnd ∧ ∀ render, grammar.write s'.tree id render =
        String.ofList (enclose k (w.toList.map Char.toLower))) ∧
    (settings.maxDepth ≤ k → ∃ d s', s.parse grammar "Nested" options =
        (.error (.tooDeep settings.maxDepth settings.maxDepth d), s') ∧
      d.position.offset = settings.maxDepth ∧ s'.depth = 0 ∧ s'.tree.size = 0) := by
  have hlt {id s'} (hparse : s.parse grammar "Nested" options = (.ok id, s')) :
      k < settings.maxDepth := by
    by_contra hk
    obtain ⟨d, t, hrefused, -⟩ := parse_enclose_too_deep hs (Nat.le_of_not_lt hk) options
    cases hparse.symm.trans hrefused
  refine ⟨⟨fun ⟨id, s', hparse⟩ => hlt hparse, fun hk => ?_⟩, fun id s' hparse => ?_, fun hk =>
    parse_enclose_too_deep hs hk options⟩
  · obtain ⟨id, s', hparse, -⟩ := parse_enclose hs hw hk options
    exact ⟨id, s', hparse⟩
  · obtain ⟨id', t, hparse', hholds⟩ := parse_enclose hs hw (hlt hparse) options
    cases hparse'.symm.trans hparse
    exact hholds

end

/-- Three levels are enough for two parentheses and too few for three. -/
theorem nesting_limit_three :
    ∃ s t id s' d t', Session.withSettings "((aB_9))" grammar { maxDepth := 3 } = .ok s ∧
      Session.withSettings "(((aB_9)))" grammar { maxDepth := 3 } = .ok t ∧
      s.parse grammar "Nested" none = (.ok id, s') ∧ s'.tree.size = 3 ∧
      grammar.write s'.tree id none = "((ab_9))" ∧
      t.parse grammar "Nested" none = (.error (.tooDeep 3 3 d), t') ∧ d.position.offset = 3 ∧
      t'.tree.size = 0 := by
  have hw : IsPlain "aB_9" := ⟨by decide, List.all_eq_true.1 (by decide)⟩
  have hs : Session.withSettings "((aB_9))" grammar { maxDepth := 3 } = .ok
      (.ofCursor { Cursor.ofText "((aB_9))" with settings := { maxDepth := 3 } } grammar.kinds) :=
    rfl
  obtain ⟨t, ht⟩ := Session.exists_withSettings hs "(((aB_9)))"
  obtain ⟨hiff, hok, -⟩ := nesting_limit (k := 2) (w := "aB_9") hs hw none
  obtain ⟨-, -, hrefused⟩ := nesting_limit (k := 3) (w := "aB_9") ht hw none
  obtain ⟨id, s', hparse⟩ := hiff.2 (by decide)
  obtain ⟨hsize, -, hwrite⟩ := hok id s' hparse
  obtain ⟨d, t', herror, hoffset, -, hempty⟩ := hrefused (by decide)
  exact ⟨_, t, id, s', d, t', hs, ht, hparse, hsize, hwrite none, herror, hoffset, hempty⟩

end Descent.Phrase
