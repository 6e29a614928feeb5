import Descent.Proofs.Script.Literal
import Descent.Proofs.Script.Printing

/-!
# Written text literals

* `Legible`: the characters that a written literal may consist of.

What is written for a text is a literal of it, and a literal shows where it ends. So the literal is
read back in front of any text. Its characters are seen one by one: each is an escape, which is made
of printable ASCII, or stands for itself, and then it need not be escaped.
-/

namespace Descent.Script

variable {ascii : Bool} {c d : Char}

/-! ## Characters -/

/-- A character that need not be escaped: it is no control, and of ASCII if that is asked for. -/
structure Legible (ascii : Bool) (c : Char) : Prop where
  notControl : Text.isControl c = false
  isAscii : ascii = true → c.toNat < 0x80

theorem legible_of_printable (h : 0x20 ≤ c.toNat) (h' : c.toNat ≤ 0x7E) : Legible ascii c := by
  refine ⟨?_, fun _ => by omega⟩
  simp [Text.isControl]
  omega

/-- Characters of escapes are tested as a list, since they are few. -/
theorem legible_of_all {l : List Char} (h : l.all fun c => 0x20 ≤ c.toNat ∧ c.toNat ≤ 0x7E)
    (hc : c ∈ l) : Legible ascii c := by
  have hprintable := of_decide_eq_true (List.all_eq_true.1 h c hc)
  exact legible_of_printable hprintable.1 hprintable.2

theorem Legible.printable (h : Legible true c) : 0x20 ≤ c.toNat ∧ c.toNat ≤ 0x7E := by
  have hcontrol := h.notControl
  have hascii := h.isAscii rfl
  simp [Text.isControl] at hcontrol
  omega

theorem legible_of_isHexDigit {n : Nat} (h : Text.IsHexDigit c n) : Legible ascii c := by
  obtain ⟨hn, hc⟩ := h
  have hall : ∀ d < 16, [d.digitChar, d.digitChar.toUpper].all
      fun c => 0x20 ≤ c.toNat ∧ c.toNat ≤ 0x7E := by decide
  exact legible_of_all (hall n hn) (by simpa using hc)

theorem legible_of_mem_hex {n : Nat} (h : c ∈ (Text.hex n).toList) : Legible ascii c := by
  obtain ⟨-, ds, hds, -⟩ := Text.hexadecimal?_eq_some_iff.1 (Text.hexadecimal?_hex n)
  generalize (Text.hex n).toList = cs at h hds
  induction hds with
  | nil => cases h
  | cons hdigit _ ih =>
    rcases List.mem_cons.1 h with rfl | h
    · exact legible_of_isHexDigit hdigit
    · exact ih h

theorem legible_of_mem_encodeChar (h : d ∈ (encodeChar ascii c).toList) : Legible ascii d := by
  unfold encodeChar at h
  split at h
  · exact legible_of_all (by decide) h
  · exact legible_of_all (by decide) h
  · exact legible_of_all (by decide) h
  · exact legible_of_all (by decide) h
  split at h
  · rw [String.toList_append, String.toList_append, List.mem_append, List.mem_append] at h
    obtain (h | h) | h := h
    · exact legible_of_all (by decide) h
    · exact legible_of_mem_hex h
    · exact legible_of_all (by decide) h
  next hplain =>
    rw [Char.toString, String.toList_singleton, List.mem_singleton] at h
    subst h
    simp only [Bool.or_eq_true, Bool.and_eq_true, decide_eq_true_eq, not_or, not_and] at hplain
    exact ⟨Bool.eq_false_iff.2 hplain.1, fun hascii => Nat.lt_of_not_le (hplain.2 hascii)⟩

theorem legible_of_mem_encode {s : String} (h : c ∈ (encode ascii s).toList) : Legible ascii c := by
  have hquote : c ∈ "\"".toList → Legible ascii c := by
    intro h
    rw [List.mem_singleton.1 h]
    exact legible_of_printable (by decide) (by decide)
  rw [encode, String.toList_append, String.toList_append, String.toList_join, List.mem_append,
    List.mem_append, List.flatMap_map, List.mem_flatMap] at h
  obtain (h | ⟨_, -, h⟩) | h := h
  · exact hquote h
  · exact legible_of_mem_encodeChar h
  · exact hquote h

/-! ## Nodes -/

variable {t : Tree} {id : NodeId} {node : Node} {v : String}

theorem write_text (hnode : t.node? id = some node) (hkind : node.kind = "Text")
    (hvalue : node.fields.string? "value" = some v) (options : Options) :
    grammar.write t id options = encode (options.flag "ascii") v := by
  have hfind : grammar.find? node.kind = some text := by
    rw [hkind]
    rfl
  have htext : node.fields.text "value" = v := by
    rw [Fields.text, hvalue]
    rfl
  rw [Grammar.write, hnode]
  simp only [hfind]
  change encode (options.flag "ascii") (node.fields.text "value") = _
  rw [htext]

/-- **Text literals encode every text.** A text node is written as a literal of its text without
controls, and in printable ASCII if that is asked for. In front of any rest a new session reads the
literal back as the text, and stops where the rest begins. -/
theorem text_encodes (hnode : t.node? id = some node) (hkind : node.kind = "Text")
    (hvalue : node.fields.string? "value" = some v) (options : Options) :
    (∀ c ∈ (grammar.write t id options).toList, Text.isControl c = false) ∧
    (options.flag "ascii" = true → ∀ c ∈ (grammar.write t id options).toList,
      0x20 ≤ c.toNat ∧ c.toNat ≤ 0x7E) ∧
    ∀ rest settings s again,
      Session.withSettings (grammar.write t id options ++ rest) grammar settings = .ok s →
      ∃ id' s' node', s.parse grammar "Text" again = (.ok id', s') ∧
        s'.tree.node? id' = some node' ∧ node'.kind = "Text" ∧
        node'.fields.string? "value" = some v ∧ s'.cursor.ahead = rest.toList ∧
        s'.cursor.offset = Text.size (grammar.write t id options).toList := by
  rw [write_text hnode hkind hvalue]
  refine ⟨fun c hc => (legible_of_mem_encode hc).notControl, ?_, ?_⟩
  · intro hascii c hc
    rw [hascii] at hc
    exact (legible_of_mem_encode hc).printable
  intro rest settings s again hs
  obtain ⟨hpos, hahead, hdepth, hsettings, htree⟩ := Session.withSettings_ok hs
  rw [String.toList_append] at hahead
  have hreaches : grammar.Reaches s.tree := htree ▸ .empty
  have hlevel : s.depth < s.cursor.settings.maxDepth := by rwa [hdepth, hsettings]
  have hliteral := isText_iff.1 (isText_encode (options.flag "ascii") v)
  have hparses := parsesLiteral_parse hreaches hlevel again
  obtain ⟨id', s', hok⟩ := hparses.succeeds_iff.2 ⟨_, _, _, hliteral, hahead.symm⟩
  obtain ⟨hrest, hoffset, node', hnode', hkind', hfields⟩ := hparses.of_ok hok hliteral hahead.symm
  rw [Session.withSettings_offset hs, Nat.zero_add] at hoffset
  have hread : node'.fields.string? "value" = some v := by
    rw [Fields.string?, Fields.scalar?, Fields.get?, hfields, String.ofList_toList]
    rfl
  exact ⟨id', s', node', hok, hnode', hkind', hread, hrest, hoffset⟩

/-- A text with a quote, a control and letters outside ASCII, in front of another literal. -/
theorem text_encodes_controls :
    let fields := Fields.ofList [("value", .string "\"é\r💡")]
    let t := ((Tree.empty grammar.kinds).insert "Text" fields).2
    let options : Options := some (.ofMembers [("ascii", .bool true)])
    grammar.write t ⟨0⟩ options = "\"\\\"\\u\x7be9\x7d\\u\x7bd\x7d\\u\x7b1f4a1\x7d\"" ∧
      ∃ id' s', (Session.ofText (grammar.write t ⟨0⟩ options ++ "\"\"") grammar).parse grammar
          "Text" none = (.ok id', s') ∧ s'.cursor.ahead = ['"', '"'] := by
  intro fields t options
  have hnode : t.node? ⟨0⟩ = some ⟨"Text", none, fields, none⟩ := rfl
  have hvalue : fields.string? "value" = some "\"é\r💡" := rfl
  obtain ⟨-, -, hreads⟩ := text_encodes hnode rfl hvalue options
  obtain ⟨id', s', -, hok, -, -, -, hrest, -⟩ := hreads "\"\"" {} _ none rfl
  refine ⟨?_, id', s', hok, hrest⟩
  rw [write_text hnode rfl hvalue]
  decide +kernel

end Descent.Script
