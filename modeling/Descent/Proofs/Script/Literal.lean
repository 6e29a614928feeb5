import Descent.Proofs.Cursor.CodePoint
import Descent.Proofs.Script.Recognition
import Descent.Proofs.Session.Objection
import Descent.Proofs.Session.Reach

/-!
# Text literals

* `IsItem`, `IsLiteral`: the literals item by item, with the characters that they stand for;
* `Rounds`: how the loop over the items runs when nothing limits it;
* `ParsesLiteral`: an outcome is a success exactly in front of a literal, it takes the literal and
  no more, and a failure is about the text.

Each item says how it is written, without an order in which the ways are tried, so a literal is put
together from its items in any way that fits. That no text fits in two ways comes from the reader,
which takes one literal only. A quote inside a literal belongs to an escape (`IsItem.mem_quote`), so
the literal ends at the first one that does not.
-/

namespace Descent.Script

open Session (Ready)

variable {l r rest : List Char} {v v' : List Char} {c : Char}

/-! ## Literals -/

/-- An item of a text literal and the character that it stands for. -/
inductive IsItem : List Char → Char → Prop
  | plain {c : Char} : c ≠ '"' → c ≠ '\\' → IsItem [c] c
  | lineFeed : IsItem ['\\', 'n'] '\n'
  | tab : IsItem ['\\', 't'] '\t'
  | quote : IsItem ['\\', '"'] '"'
  | backslash : IsItem ['\\', '\\'] '\\'
  | codePoint {hex : List Char} {c : Char} : Text.IsHexadecimal hex c.toNat →
    IsItem ('\\' :: 'u' :: '\x7b' :: (hex ++ ['\x7d'])) c

/-- A text literal, and the characters that its items stand for. -/
def IsLiteral (l v : List Char) : Prop :=
  ∃ items, List.Forall₂ IsItem items v ∧ l = '"' :: (items.flatten ++ ['"'])

theorem isItem_escape {e : String} (h : (e, c) ∈ escapes) : IsItem e.toList c := by
  simp only [escapes, List.mem_cons, Prod.mk.injEq, List.not_mem_nil, or_false] at h
  obtain ⟨rfl, rfl⟩ | ⟨rfl, rfl⟩ | ⟨rfl, rfl⟩ | ⟨rfl, rfl⟩ := h
  · exact .lineFeed
  · exact .tab
  · exact .quote
  · exact .backslash

theorem IsItem.quoted (h : IsItem l c) (hr : Quoted r v) : Quoted (l ++ r) (c :: v) := by
  cases h with
  | plain hquote hbackslash =>
    have hplain : isPlain c := by simpa [isPlain] using And.intro hquote hbackslash
    exact .plain hplain hr
  | lineFeed => exact .escape (e := "\\n") (by decide) hr
  | tab => exact .escape (e := "\\t") (by decide) hr
  | quote => exact .escape (e := "\\\"") (by decide) hr
  | backslash => exact .escape (e := "\\\\") (by decide) hr
  | @codePoint hex _ hhex =>
    have hcode : Cursor.codePoint? (String.ofList hex) = some c := by
      rwa [Cursor.codePoint?_eq_some_iff, String.toList_ofList]
    rw [List.cons_append, List.cons_append, List.cons_append, List.append_assoc]
    exact .unicode hcode hr

/-- What follows the opening quote consists of items and the closing quote. -/
theorem quoted_iff : Quoted l v ↔
    ∃ items, List.Forall₂ IsItem items v ∧ l = items.flatten ++ ['"'] := by
  constructor
  · intro h
    induction h with
    | close => exact ⟨[], .nil, rfl⟩
    | @plain c _ _ hc _ ih =>
      obtain ⟨items, hitems, rfl⟩ := ih
      have hne : c ≠ '"' ∧ c ≠ '\\' := by simpa [isPlain] using hc
      exact ⟨[c] :: items, .cons (.plain hne.1 hne.2) hitems, rfl⟩
    | @escape e _ _ _ he _ ih =>
      obtain ⟨items, hitems, rfl⟩ := ih
      exact ⟨e.toList :: items, .cons (isItem_escape he) hitems, by simp⟩
    | @unicode hex _ _ _ hcode _ ih =>
      obtain ⟨items, hitems, rfl⟩ := ih
      rw [Cursor.codePoint?_eq_some_iff, String.toList_ofList] at hcode
      exact ⟨_, .cons (.codePoint hcode) hitems, by simp⟩
  · rintro ⟨items, hitems, rfl⟩
    induction hitems with
    | nil => exact .close
    | cons hitem _ ih =>
      rw [List.flatten_cons, List.append_assoc]
      exact hitem.quoted ih

theorem isText_iff {s : String} : IsText l s ↔ IsLiteral l s.toList := by
  constructor
  · rintro ⟨h⟩
    obtain ⟨items, hitems, rfl⟩ := quoted_iff.1 h
    exact ⟨items, by rwa [String.toList_ofList], rfl⟩
  · rintro ⟨items, hitems, rfl⟩
    rw [← String.ofList_toList (s := s)]
    exact .mk (quoted_iff.2 ⟨items, hitems, rfl⟩)

theorem readText_iff {cs : List Char} {s : String} :
    readText cs = some (s, rest) ↔ ∃ l, l ++ rest = cs ∧ IsLiteral l s.toList := by
  constructor
  · intro h
    obtain ⟨l, hl, htext⟩ := sound_text h
    exact ⟨l, hl, isText_iff.1 htext⟩
  · rintro ⟨l, rfl, hl⟩
    exact complete_text (isText_iff.2 hl) trivial

/-- A quote inside an item is escaped. -/
theorem IsItem.mem_quote (h : IsItem l c) (hq : '"' ∈ l) : l = ['\\', '"'] := by
  cases h with
  | plain hquote => exact absurd (List.mem_singleton.1 hq).symm hquote
  | quote => rfl
  | lineFeed | tab | backslash => exact absurd hq (by decide)
  | @codePoint hex _ hhex =>
    have hdigit : '"' ∈ hex := by simpa using hq
    have hread := Text.hexadecimal?_eq_some_iff.2 hhex
    unfold Text.hexadecimal? at hread
    split at hread
    · cases hread
    · cases Text.isSome_of_readDigits? hread hdigit

/-! ## The loop -/

/-- How the loop over the items of a literal runs if it may go on for ever: to a failure, to the
closing quote, or to a further item. -/
inductive Rounds (handle : Handler) : String → Session → Outcome Session String → Prop
  | failure {value e s s'} : readItem.run handle s = (.error e, s') →
    Rounds handle value s (.error e, s')
  | quote {value s s'} : readItem.run handle s = (.ok none, s') →
    Rounds handle value s (.ok value, s')
  | item {value item s s' outcome} : readItem.run handle s = (.ok (some item), s') →
    Rounds handle (value ++ item) s' outcome → Rounds handle value s outcome

variable {levels : Nat} {s : Session}

/-- The limit of the loop is not reached if every further item takes text. -/
theorem rounds_of_shrinks {handle : Handler} {P : Session → Prop}
    (hitem : ∀ {s item s'}, P s → readItem.run handle s = (.ok (some item), s') →
      P s' ∧ s'.cursor.ahead.length < s.cursor.ahead.length) {fuel : Nat} (value : String)
    (hs : P s) (hfuel : s.cursor.ahead.length < fuel) :
    Rounds handle value s ((readItems fuel value).run handle s) := by
  induction fuel generalizing value s with
  | zero => exact absurd hfuel (Nat.not_lt_zero _)
  | succ fuel ih =>
    rw [readItems, Program.run_bind]
    rcases hrun : readItem.run handle s with ⟨e | _ | item, s'⟩
    · exact .failure hrun
    · exact .quote hrun
    · obtain ⟨hs', hlt⟩ := hitem hs hrun
      exact .item hrun (ih _ hs' (Nat.lt_of_lt_of_le hlt (Nat.le_of_lt_succ hfuel)))

/-- The limit of the loop is never reached. -/
theorem rounds_readItems {fuel : Nat} (value : String) (hs : s.Ready grammar levels)
    (hfuel : s.cursor.ahead.length < fuel) :
    Rounds (grammar.handler levels) value s
      ((readItems fuel value).run (grammar.handler levels) s) := by
  refine rounds_of_shrinks (P := (·.Ready grammar levels)) (fun {s item s'} hs hrun => ?_) value
    hs hfuel
  have hagrees := agrees_readItem hs
  rcases hpiece : readPiece s.cursor.ahead with _ | ⟨turn, rest⟩ <;> rw [hpiece] at hagrees
  · obtain ⟨e, s', hfail⟩ := hagrees
    cases hfail.symm.trans hrun
  · obtain ⟨item, s', hitem, his, hcomes⟩ := hagrees
    cases hitem.symm.trans hrun
    cases turn with
    | stop | last => cases his
    | next l =>
      refine ⟨hcomes.ready hs, ?_⟩
      rw [hcomes.ahead]
      exact readPiece_next hpiece

/-! ## Failures -/

theorem objects_readEscape (escapes : List (String × Char)) :
    (readEscape escapes).Objects grammar levels := by
  induction escapes with
  | nil => exact .pure _
  | cons entry escapes ih =>
    apply Program.Objects.bind (.take? (spans_literal _))
    intro answer
    cases answer with
    | some _ => exact .pure _
    | none => exact ih

theorem objects_readItem : readItem.Objects grammar levels := by
  apply Program.Objects.bind (.take? spans_plain)
  intro plain
  cases plain with
  | some _ => exact .pure _
  | none =>
  apply Program.Objects.bind (.take? (spans_literal _))
  intro quote
  cases quote with
  | some _ => exact .pure _
  | none =>
  apply Program.Objects.bind (.take? (spans_literal _))
  intro unicode
  cases unicode with
  | some _ =>
    apply Program.Objects.bind (.take spans_braced _)
    intro hex
    apply Program.Objects.bind (.take (spans_literal _) _)
    intro _
    exact .bind (.decode hex) fun _ => .pure _
  | none =>
  apply Program.Objects.bind (objects_readEscape escapes)
  intro escape
  cases escape with
  | some _ => exact .pure _
  | none =>
    apply Program.Objects.bind .state
    intro s
    split
    · exact .fail _
    · exact .fail _

theorem objects_readItems (fuel : Nat) (value : String) :
    (readItems fuel value).Objects grammar levels := by
  induction fuel generalizing value with
  | zero => exact .fail _
  | succ fuel ih =>
    apply Program.Objects.bind objects_readItem
    intro item
    cases item with
    | some item => exact ih (value ++ item)
    | none => exact .pure _

theorem objects_text (options : Options) : (text.body options).Objects grammar levels := by
  apply Program.Objects.bind (.take (spans_literal _) none)
  intro _
  apply Program.Objects.bind .state
  intro s
  exact .bind (objects_readItems _ _) fun _ => .pure _

/-! ## Parses -/

/-- An outcome of parsing a text literal from a session is the right one. -/
structure ParsesLiteral (s : Session) (outcome : Outcome Session NodeId) : Prop where
  succeeds_iff : (∃ id s', outcome = (.ok id, s')) ↔
    ∃ l v rest, IsLiteral l v ∧ l ++ rest = s.cursor.ahead
  of_ok : ∀ {id s' l v rest}, outcome = (.ok id, s') → IsLiteral l v →
    l ++ rest = s.cursor.ahead →
      s'.cursor.ahead = rest ∧ s'.cursor.offset = s.cursor.offset + Text.size l ∧
        ∃ node, s'.tree.node? id = some node ∧ node.kind = "Text" ∧
          node.fields.entries = [("value", .string (String.ofList v))]
  of_error : ∀ {e s'}, outcome = (.error e, s') → ∃ message, e = s'.cursor.unexpected message

theorem parsesLiteral_parse (hs : grammar.Reaches s.tree)
    (hd : s.depth < s.cursor.settings.maxDepth) (options : Options) :
    ParsesLiteral s (s.parse grammar "Text" options) := by
  obtain ⟨levels, hlevels⟩ := Nat.exists_eq_add_of_lt hd
  have hinside : Ready grammar levels { s with depth := s.depth + 1 } :=
    ⟨hs.owned.1, hs.owned.2, by rw [hlevels]; exact Nat.add_right_comm ..⟩
  have hparse : s.parse grammar "Text" options =
      text.parse (some (grammar.handler levels)) options s := by
    have hleft : s.cursor.settings.maxDepth - s.depth = levels + 1 := by omega
    rw [Session.parse, Session.handle, hleft]
    exact Session.handler_parse rfl
  have hbody : Agrees ((text.body options).run _ _) (readText s.cursor.ahead) _ :=
    agrees_text hinside rfl
  rw [hparse]
  rcases hread : readText s.cursor.ahead with _ | ⟨value, rest⟩ <;> rw [hread] at hbody
  · obtain ⟨e, after, hrun⟩ := hbody
    rw [Session.parse_of_error hd hrun]
    refine ⟨⟨?_, ?_⟩, ?_, ?_⟩
    · rintro ⟨_, _, ⟨⟩⟩
    · rintro ⟨l, v, rest, hl, hahead⟩
      rw [← String.toList_ofList (l := v)] at hl
      cases hread.symm.trans (readText_iff.2 ⟨l, hahead, hl⟩)
    · rintro _ _ _ _ _ ⟨⟩
    · rintro _ _ ⟨⟩
      obtain ⟨message, rfl⟩ := objects_text options hrun
      exact ⟨message, rfl⟩
  · obtain ⟨_, after, hrun, rfl, hcomes⟩ := hbody
    rw [Session.parse_of_ok hd hrun hcomes.tree.fresh.free]
    obtain ⟨l, hahead, hl⟩ := readText_iff.1 hread
    refine ⟨⟨fun _ => ⟨l, _, rest, hl, hahead⟩, fun _ => ⟨_, _, rfl⟩⟩, ?_, by rintro _ _ ⟨⟩⟩
    rintro _ _ l' v' rest' ⟨⟩ hl' hahead'
    rw [← String.toList_ofList (l := v')] at hl'
    obtain ⟨rfl, rfl⟩ : value = String.ofList v' ∧ rest = rest' := by
      have hread' := readText_iff.2 ⟨l', hahead', hl'⟩
      simpa using hread.symm.trans hread'
    have hafter : after.cursor.ahead = rest := hcomes.ahead
    have hbehind : after.cursor.behind.reverse = s.cursor.behind.reverse ++ l' := by
      have htext : after.cursor.behind.reverse ++ after.cursor.ahead =
          s.cursor.behind.reverse ++ s.cursor.ahead := hcomes.cursor.text
      rw [hafter, ← hahead', ← List.append_assoc] at htext
      exact List.append_cancel_right htext
    have hsize : Text.size after.cursor.behind = Text.size s.cursor.behind + Text.size l' := by
      rw [← Text.size_reverse, hbehind, Text.size_append, Text.size_reverse]
    exact ⟨hafter, hsize, _, Tree.node?_append_new, rfl, rfl⟩

/-- **Text literals.** Wherever a level is left, a text literal is parsed exactly if one is at the
cursor. It is taken up to its closing quote, which is the first that does not belong to an escape,
and the node holds what its items stand for. Else the text is at fault. The loop over the items ends
by itself. -/
theorem text_parses_literals (hs : grammar.Reaches s.tree)
    (hd : s.depth < s.cursor.settings.maxDepth) (options : Options) :
    ParsesLiteral s (s.parse grammar "Text" options) ∧
    (∀ l c, IsItem l c → '"' ∈ l → l = ['\\', '"']) ∧
    ∀ {quote inside}, let handle := grammar.handler (s.cursor.settings.maxDepth - (s.depth + 1))
      (Program.take (.literal "\"") none).run handle { s with depth := s.depth + 1 } =
        (.ok quote, inside) →
      Rounds handle "" inside
        ((readItems (inside.cursor.ahead.length + 1) "").run handle inside) := by
  refine ⟨parsesLiteral_parse hs hd options, fun _ _ h => h.mem_quote, ?_⟩
  intro quote inside handle hquote
  have hready : Ready grammar (s.cursor.settings.maxDepth - (s.depth + 1))
      { s with depth := s.depth + 1 } :=
    ⟨hs.owned.1, hs.owned.2, Nat.add_sub_cancel' hd⟩
  have htake := hready.agrees_take (spans_literal "\"") rfl none
  rcases hspan : literalSpan? "\"" s.cursor.ahead with _ | span <;> rw [hspan] at htake
  · obtain ⟨e, s', hfail⟩ := htake
    cases hquote.symm.trans hfail
  · obtain ⟨_, s', hrun, -, hcomes⟩ := htake
    cases hquote.symm.trans hrun
    exact rounds_readItems "" (hcomes.ready hready) (Nat.lt_succ_self _)

/-- A literal in the middle of a text, with a code point that has leading zeros and a quote. -/
theorem text_parses_literals_escapes :
    let text := "f(\"a\\u\x7b00E9\x7d\\\"\")"
    let s : Session := { Session.ofText text grammar with cursor := (Cursor.ofText text).forward 2 }
    s.cursor.offset = 2 ∧ ∃ id s', s.parse grammar "Text" none = (.ok id, s') ∧
      s'.cursor.ahead = [')'] ∧ s'.cursor.offset = 15 ∧ ∃ node, s'.tree.node? id = some node ∧
        node.fields.entries = [("value", .string "aé\"")] := by
  intro text s
  have hhex : Text.IsHexadecimal ['0', '0', 'E', '9'] 'é'.toNat :=
    Text.hexadecimal?_eq_some_iff.1 (by decide)
  have hl : IsLiteral "\"a\\u\x7b00E9\x7d\\\"\"".toList ['a', 'é', '"'] :=
    ⟨_, .cons (.plain (by decide) (by decide)) (.cons (.codePoint hhex) (.cons .quote .nil)), rfl⟩
  have hahead : "\"a\\u\x7b00E9\x7d\\\"\"".toList ++ [')'] = s.cursor.ahead := by
    decide
  obtain ⟨hparses, -, -⟩ := text_parses_literals (s := s) .empty (by decide) none
  obtain ⟨id, s', hok⟩ := hparses.succeeds_iff.2 ⟨_, _, _, hl, hahead⟩
  obtain ⟨hrest, hoffset, node, hnode, -, hfields⟩ := hparses.of_ok hok hl hahead
  exact ⟨by decide, id, s', hok, hrest, hoffset.trans (by decide), node, hnode, hfields⟩

end Descent.Script
