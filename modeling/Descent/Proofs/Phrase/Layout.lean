import Descent.Proofs.Phrase.Parsing
import Descent.Proofs.Session.CommaList
import Descent.Proofs.Session.Series

/-!
# Layouts of words

* `Spread`: a text of some words, with a separator of a kind between each two of them;
* `IsComma`, `IsGap`: the separators of a list and of a series;
* `TakesWord`: a word has been taken, and a node has been made of it;
* `Written`: nodes that have been made of words, one after the other.

A word is taken with the space behind it. So each round of a repetition gets in front of the next
word but for what space a separator leaves, whichever separators there are (`ends_of_spread`).
-/

namespace Descent.Phrase

open Session (Ends Round handle)

variable {options : Options} {s s' s'' : Session} {lead gap t r rest body : List Char} {w : String}
  {words : List String} {ids : List NodeId}

/-! ## Layouts -/

/-- Words in their order, with separators between them. -/
inductive Spread (separates : List Char → Prop) : List String → List Char → Prop
  | last {w : String} : Spread separates [w] w.toList
  | cons {w : String} {words : List String} {gap cs : List Char} : separates gap →
    Spread separates words cs → Spread separates (w :: words) (w.toList ++ (gap ++ cs))

/-- A comma with space on both sides, or none. -/
def IsComma (cs : List Char) : Prop :=
  ∃ l r, l ++ ',' :: r = cs ∧ (∀ c ∈ l, Text.isSpace c) ∧ ∀ c ∈ r, Text.isSpace c

/-- Some space. -/
def IsGap (cs : List Char) : Prop :=
  cs ≠ [] ∧ ∀ c ∈ cs, Text.isSpace c

/-- A word as it is looked for: characters of words, in any case. -/
structure IsPlain (w : String) : Prop where
  ne_nil : w.toList ≠ []
  has : ∀ c ∈ w.toList, Word.has c

theorem IsPlain.stops (h : IsPlain w) (rest : List Char) :
    Stops Text.isSpace (w.toList ++ rest) :=
  stops_of_has h.ne_nil h.has rest

theorem IsPlain.starts (h : IsPlain w) (rest : List Char) : startsWord (w.toList ++ rest) :=
  startsWord_append h.ne_nil h.has rest

theorem Spread.stops {separates : List Char → Prop} (h : Spread separates words body)
    (hwords : ∀ w ∈ words, IsPlain w) (rest : List Char) :
    Stops Text.isSpace (body ++ rest) := by
  cases h with
  | last => exact (hwords _ (.head _)).stops rest
  | cons =>
    rw [List.append_assoc]
    exact (hwords _ (.head _)).stops _

/-! ## Words that are taken -/

/-- The fields of a word, in the case that the options want. -/
def wordFields (options : Options) (w : String) : Fields :=
  .ofList [("word", .string (String.ofList
    (w.toList.map (if Options.flag options "upper" then Char.toUpper else Char.toLower))))]

/-- A word has been taken and a node made of it; the cursor stands before the rest. -/
structure TakesWord (options : Options) (w : String) (rest : List Char) (s s' : Session) :
    Prop where
  cursor : s.cursor.MovesTo rest s'.cursor
  depth : s'.depth = s.depth
  tree : ∃ start, s'.tree = (s.tree.append "AnyWord" (some start) (wordFields options w)).2

theorem TakesWord.moves (h : TakesWord options w rest s s') (hm : s'.Moves s'') :
    TakesWord options w s''.cursor.ahead s s'' :=
  ⟨h.cursor.trans hm.cursor, hm.depth.trans h.depth, hm.tree ▸ h.tree⟩

theorem TakesWord.of_moves (hm : s.Moves s') (h : TakesWord options w rest s' s'') :
    TakesWord options w rest s s'' :=
  ⟨hm.cursor.trans h.cursor, h.depth.trans hm.depth, hm.tree ▸ h.tree⟩

theorem TakesWord.ahead_spaced (h : TakesWord options w rest s s')
    (hrest : Stops Text.isSpace rest) :
    s'.spaced.cursor.ahead = rest := by
  rw [← hrest.dropWhile, ← h.cursor.ahead]
  exact s'.cursor.dropSpace_movesTo.ahead

theorem find_anyWord : grammar.find "AnyWord" = .ok anyWord := rfl

theorem IsPlain.cased_lowered (hw : IsPlain w) (options : Options) :
    cased (Options.flag options "upper") (String.ofList (w.toList.map Char.toLower)) =
      String.ofList
        (w.toList.map (if Options.flag options "upper" then Char.toUpper else Char.toLower)) := by
  have hupper : (w.toList.map Char.toLower).map Char.toUpper = w.toList.map Char.toUpper := by
    rw [List.map_map]
    exact List.map_congr_left fun c hc => toUpper_toLower (hw.has c hc)
  cases Options.flag options "upper" <;> simp [cased, capitals, hupper]

/-- A word at the cursor is parsed where there is a level left. -/
theorem parse_anyWord (hroom : s.depth < s.cursor.settings.maxDepth) (hw : IsPlain w)
    (hahead : s.cursor.ahead = w.toList ++ rest) (hrest : Stops Word.has rest)
    (options : Options) :
    ∃ s', s.parse grammar "AnyWord" options = (.ok ⟨s.tree.size⟩, s') ∧
      TakesWord options w (rest.dropWhile Text.isSpace) s s' := by
  have hword : s.cursor.plain.word = String.ofList (w.toList.map Char.toLower) :=
    (congrArg nextWord hahead).trans (nextWord_append hw.ne_nil hw.has hrest)
  have hbehind : s.cursor.plain.pastWord.ahead = rest.dropWhile Text.isSpace :=
    (congrArg behindWord hahead).trans (behindWord_append hw.ne_nil hw.has hrest)
  have hfault : Cursor.wordFault? none s.cursor.plain.word = none := by
    rw [hword, wordFault?_none_iff]
    simpa using hw.ne_nil
  obtain ⟨c, hc, hmoves⟩ := Cursor.takeThisWord_of_no_fault hfault
  obtain ⟨below, hbelow⟩ : ∃ below, s.cursor.settings.maxDepth - s.depth = below + 1 :=
    ⟨s.cursor.settings.maxDepth - s.depth - 1, by omega⟩
  have hrun : (anyWord.body options).run (grammar.handler below) { s with depth := s.depth + 1 } =
      (.ok (wordFields options w), { s with cursor := c, depth := s.depth + 1 }) := by
    have htake : (Program.takeThisWord none).run (grammar.handler below)
        { s with depth := s.depth + 1 } =
          (.ok s.cursor.plain.word, { s with cursor := c, depth := s.depth + 1 }) :=
      Session.run_act (a := .takeThisWord none) hc
    refine (Program.run_bind (Program.takeThisWord none) _ _).trans ?_
    rw [htake, hword, wordFields, ← hw.cased_lowered]
    rfl
  have hfree : s.tree.Free (wordFields options w).children := ⟨.nil, nofun⟩
  rw [Session.parse, Session.handle_eq_handler hbelow,
    Session.handler_parse find_anyWord]
  unfold Production.parse
  rw [if_neg (Nat.not_le_of_lt hroom)]
  simp only [Session.inner, hrun, Tree.graft_of_free hfree]
  exact ⟨_, rfl, hbehind ▸ hmoves, rfl, _, rfl⟩

/-- A word is recognized and parsed behind any space, and its parse comes back elsewhere. -/
theorem parse_spaced (hroom : s.depth < s.cursor.settings.maxDepth) (hw : IsPlain w)
    (hlead : ∀ c ∈ lead, Text.isSpace c) (hahead : s.cursor.ahead = lead ++ (w.toList ++ rest))
    (hrest : Stops Word.has rest) (options : Options) :
    grammar.seesStart anyWord options s.spaced = .ok true ∧
      ∃ s', s.spaced.parse grammar "AnyWord" options = (.ok ⟨s.tree.size⟩, s') ∧
        TakesWord options w (rest.dropWhile Text.isSpace) s s' ∧
        s'.cursor.offset ≠ s.spaced.cursor.offset := by
  have hspaced : s.spaced.cursor.ahead = w.toList ++ rest := by
    refine s.cursor.dropSpace_movesTo.ahead.trans ?_
    rw [hahead, (hw.stops rest).dropWhile_append hlead]
  have hsees : grammar.seesStart anyWord options s.spaced =
      .ok (startsWord s.spaced.cursor.ahead) := rfl
  obtain ⟨s', hparse, htakes⟩ :=
    parse_anyWord (s := s.spaced) hroom hw hspaced hrest options
  refine ⟨by rw [hsees, hspaced, hw.starts], s', hparse, .of_moves s.moves_spaced htakes, ?_⟩
  rw [Ne, htakes.cursor.offset_eq_iff (.refl s.spaced.cursor), hspaced]
  intro heq
  have hlength := congrArg List.length heq
  have hle := (rest.dropWhile_suffix Text.isSpace).length_le
  have hpos := List.length_pos_iff.2 hw.ne_nil
  rw [List.length_append] at hlength
  omega

/-! ## What is written -/

/-- Nodes that have been made of words, in their order, and nothing else has been done to a tree. -/
structure Written (options : Options) (t : Tree) (words : List String) (ids : List NodeId)
    (t' : Tree) : Prop where
  size_eq : t'.size = t.size + words.length
  numbers : ids.map (·.index) = List.range' t.size words.length
  old : ∀ {id node}, t.node? id = some node → t'.node? id = some node
  nodes : List.Forall₂ (fun w id => ∃ start,
    t'.node? id = some ⟨"AnyWord", some start, wordFields options w, none⟩) words ids

theorem TakesWord.written (h : TakesWord options w rest s s') :
    Written options s.tree [w] [⟨s.tree.size⟩] s'.tree := by
  obtain ⟨start, htree⟩ := h.tree
  rw [htree]
  exact ⟨Tree.size_append, rfl, Tree.node?_append_old, .cons ⟨start, Tree.node?_append_new⟩ .nil⟩

theorem Written.append {t t' t'' : Tree} {words' : List String} {ids' : List NodeId}
    (h : Written options t words ids t') (h' : Written options t' words' ids' t'') :
    Written options t (words ++ words') (ids ++ ids') t'' where
  size_eq := by rw [h'.size_eq, h.size_eq, List.length_append, Nat.add_assoc]
  numbers := by
    rw [List.map_append, h.numbers, h'.numbers, h.size_eq, List.length_append,
      List.range'_append_1]
  old hn := h'.old (h.old hn)
  nodes := List.rel_append (h.nodes.imp fun _ _ ⟨start, hn⟩ => ⟨start, h'.old hn⟩) h'.nodes

/-! ## Repetitions -/

/-- A repetition comes to an end behind words if a round does so behind each of them, and in front
of the next word but for space where a separator follows. -/
theorem ends_of_spread {separates : List Char → Prop} {round : Session → Outcome Session Round}
    (hnext : ∀ {s lead w gap rest}, s.depth < s.cursor.settings.maxDepth → IsPlain w →
      (∀ c ∈ lead, Text.isSpace c) → separates gap → Stops Text.isSpace rest →
      s.cursor.ahead = lead ++ (w.toList ++ (gap ++ rest)) →
      ∃ s' lead', round s = (.ok (.next ⟨s.tree.size⟩), s') ∧ (∀ c ∈ lead', Text.isSpace c) ∧
        TakesWord options w (lead' ++ rest) s s')
    (hlast : ∀ {s lead w}, s.depth < s.cursor.settings.maxDepth → IsPlain w →
      (∀ c ∈ lead, Text.isSpace c) → s.cursor.ahead = lead ++ (w.toList ++ rest) →
      ∃ s', Ends round s (.ok [⟨s.tree.size⟩], s') ∧ TakesWord options w r s s')
    (h : Spread separates words body) (hwords : ∀ w ∈ words, IsPlain w)
    (hroom : s.depth < s.cursor.settings.maxDepth) (hlead : ∀ c ∈ lead, Text.isSpace c)
    (hahead : s.cursor.ahead = lead ++ (body ++ rest)) :
    ∃ ids s', Ends round s (.ok ids, s') ∧ s.cursor.MovesTo r s'.cursor ∧
      Written options s.tree words ids s'.tree := by
  induction h generalizing s lead with
  | @last w =>
    obtain ⟨s', hends, htakes⟩ := hlast hroom (hwords w (.head _)) hlead hahead
    exact ⟨_, s', hends, htakes.cursor, htakes.written⟩
  | @cons w words gap cs hgap hspread ih =>
    obtain ⟨hw, hwords⟩ := List.forall_mem_cons.1 hwords
    rw [List.append_assoc, List.append_assoc] at hahead
    obtain ⟨s₁, lead', hround, hlead', htakes⟩ :=
      hnext hroom hw hlead hgap (hspread.stops hwords rest) hahead
    have hroom₁ : s₁.depth < s₁.cursor.settings.maxDepth := by
      rwa [htakes.depth, htakes.cursor.settings]
    obtain ⟨ids, s', hends, hmoves, hwritten⟩ := ih hwords hroom₁ hlead' htakes.cursor.ahead
    exact ⟨_, s', hends.next hround, htakes.cursor.trans hmoves,
      htakes.written.append hwritten⟩

section
variable (hw : IsPlain w) (hroom : s.depth < s.cursor.settings.maxDepth)
  (hlead : ∀ c ∈ lead, Text.isSpace c) (options : Options)
include hw hroom hlead

theorem seriesRound_word (hahead : s.cursor.ahead = lead ++ (w.toList ++ rest))
    (hrest : Stops Word.has rest) :
    ∃ s', grammar.seriesRound (some (handle grammar)) anyWord options s =
        (.ok (.next ⟨s.tree.size⟩), s') ∧
      TakesWord options w (rest.dropWhile Text.isSpace) s s' := by
  obtain ⟨hsees, s', hparse, htakes, hne⟩ := parse_spaced hroom hw hlead hahead hrest options
  exact ⟨s', Grammar.SeriesStep.eq find_anyWord (.element hsees hparse hne), htakes⟩

/-- Space separates a word from the next one. -/
theorem seriesRound_gap (hgap : IsGap gap) (hrest : Stops Text.isSpace rest)
    (hahead : s.cursor.ahead = lead ++ (w.toList ++ (gap ++ rest))) :
    ∃ s', grammar.seriesRound (some (handle grammar)) anyWord options s =
        (.ok (.next ⟨s.tree.size⟩), s') ∧ TakesWord options w rest s s' := by
  have hstops : Stops Word.has (gap ++ rest) :=
    stops_has_append hgap.2 fun hnil => absurd hnil hgap.1
  have hround := seriesRound_word hw hroom hlead options hahead hstops
  rwa [hrest.dropWhile_append hgap.2] at hround

/-- A series ends behind a word if no other follows. -/
theorem seriesRound_end (ht : ∀ c ∈ t, Text.isSpace c) (hspace : Stops Text.isSpace r)
    (hr : Stops Word.has r) (hahead : s.cursor.ahead = lead ++ (w.toList ++ (t ++ r))) :
    ∃ s', Ends (grammar.seriesRound (some (handle grammar)) anyWord options) s
        (.ok [⟨s.tree.size⟩], s') ∧ TakesWord options w r s s' := by
  obtain ⟨s', hround, htakes⟩ :=
    seriesRound_word hw hroom hlead options hahead (stops_has_append ht fun _ => hr)
  rw [hspace.dropWhile_append ht] at htakes
  have hspaced := htakes.ahead_spaced hspace
  have hstarts : startsWord r = false := by
    cases r with
    | nil => rfl
    | cons c r => exact hr c rfl
  have hsees : grammar.seesStart anyWord options s'.spaced =
      .ok (startsWord s'.spaced.cursor.ahead) := rfl
  rw [hspaced, hstarts] at hsees
  have hstop := Grammar.SeriesStep.eq find_anyWord (.absent hsees)
  exact ⟨s', .stop (.next hround .here) hstop, htakes⟩

/-- A comma separates a word from the next one, but for the space behind it. -/
theorem commaRound_comma (hgap : IsComma gap)
    (hahead : s.cursor.ahead = lead ++ (w.toList ++ (gap ++ rest))) :
    ∃ s' lead', grammar.commaRound (some (handle grammar)) anyWord options s =
        (.ok (.next ⟨s.tree.size⟩), s') ∧ (∀ c ∈ lead', Text.isSpace c) ∧
      TakesWord options w (lead' ++ rest) s s' := by
  obtain ⟨l, l', rfl, hl, hl'⟩ := hgap
  rw [List.append_assoc] at hahead
  have hcomma : Stops Text.isSpace (',' :: l' ++ rest) := .cons rfl
  obtain ⟨hsees, s₁, hparse, htakes, -⟩ := parse_spaced hroom hw hlead hahead
    (stops_has_append hl fun _ => .cons rfl) options
  rw [hcomma.dropWhile_append hl] at htakes
  have hspaced := htakes.ahead_spaced hcomma
  have hnext : s₁.spaced.cursor.next? = some ',' := congrArg List.head? hspaced
  have hcut := s₁.behindComma_cut hnext
  rw [hspaced] at hcut
  have hbehind : s₁.behindComma.cursor.ahead = l' ++ rest := List.tail_eq_of_cons_eq hcut
  exact ⟨s₁.behindComma, l', Grammar.CommaStep.eq find_anyWord (.element hsees hparse hnext), hl',
    hbehind ▸ htakes.moves s₁.moves_behindComma⟩

/-- A list ends behind a word if there is no comma behind it. -/
theorem commaRound_end (ht : ∀ c ∈ t, Text.isSpace c) (hspace : Stops Text.isSpace r)
    (hr : t = [] → Stops Word.has r) (hcomma : r.head? ≠ some ',')
    (hahead : s.cursor.ahead = lead ++ (w.toList ++ (t ++ r))) :
    ∃ s', Ends (grammar.commaRound (some (handle grammar)) anyWord options) s
        (.ok [⟨s.tree.size⟩], s') ∧ TakesWord options w r s s' := by
  obtain ⟨hsees, s₁, hparse, htakes, -⟩ :=
    parse_spaced hroom hw hlead hahead (stops_has_append ht hr) options
  rw [hspace.dropWhile_append ht] at htakes
  have hspaced := htakes.ahead_spaced hspace
  have hnext : s₁.spaced.cursor.next? ≠ some ',' := by rwa [Cursor.next?, hspaced]
  exact ⟨s₁.spaced, .last .here (Grammar.CommaStep.eq find_anyWord (.last hsees hparse hnext)),
    hspaced ▸ htakes.moves s₁.moves_spaced⟩

end

/-! ## Lists of words -/

/-- **Words are read back under every layout.** Let words be followed by space `t` and a rest `r`.
If there are commas between them, with any space around, and neither a comma behind them nor more of
the last word, then a comma-separated list takes them all; if there is space between them, and no
word behind them, then a series does. It comes to an end in front of the rest, and it has made a
node of each word, in the case that the options want, and no other. -/
theorem lists_read_back (h : grammar.Reaches s.tree)
    (hroom : s.depth < s.cursor.settings.maxDepth) (hwords : ∀ w ∈ words, IsPlain w)
    (hlead : ∀ c ∈ lead, Text.isSpace c) (ht : ∀ c ∈ t, Text.isSpace c)
    (hspace : Stops Text.isSpace r) (hahead : s.cursor.ahead = lead ++ (body ++ (t ++ r)))
    (options : Options) :
    (Spread IsComma words body → r.head? ≠ some ',' → (t = [] → Stops Word.has r) →
      ∃ ids s', s.handle grammar (.commaList "AnyWord" options) = (.ok ids, s') ∧
        s.cursor.MovesTo r s'.cursor ∧ Written options s.tree words ids s'.tree) ∧
    (Spread IsGap words body → Stops Word.has r →
      ∃ ids s', s.handle grammar (.series "AnyWord" options) = (.ok ids, s') ∧
        s.cursor.MovesTo r s'.cursor ∧ Written options s.tree words ids s'.tree) := by
  have hforward : grammar.Forward "AnyWord" options := fun _ _ _ _ =>
    Grammar.offset_le_of_local locals
  constructor
  · intro hspread hcomma hr
    obtain ⟨ids, s', hends, hmoves, hwritten⟩ := ends_of_spread
      (fun hroom hw hlead hgap _ hahead =>
        commaRound_comma hw hroom hlead options hgap hahead)
      (fun hroom hw hlead hahead =>
        commaRound_end hw hroom hlead options ht hspace hr hcomma hahead)
      hspread hwords hroom hlead hahead
    have hanswer := (Grammar.commaList_ends find_anyWord h hforward).unique hends
    exact ⟨ids, s', hanswer, hmoves, hwritten⟩
  · intro hspread hr
    obtain ⟨ids, s', hends, hmoves, hwritten⟩ := ends_of_spread
      (fun {s lead w gap rest} hroom hw hlead hgap hrest hahead => by
        obtain ⟨s', hround, htakes⟩ :=
          seriesRound_gap hw hroom hlead options hgap hrest hahead
        exact ⟨s', [], hround, nofun, htakes⟩)
      (fun hroom hw hlead hahead =>
        seriesRound_end hw hroom hlead options ht hspace hr hahead)
      hspread hwords hroom hlead hahead
    have hanswer := (Grammar.series_ends find_anyWord h hforward).unique hends
    exact ⟨ids, s', hanswer, hmoves, hwritten⟩

/-- Two words in capitals, with an ideographic space in front of them and a no-break space between
them. -/
theorem lists_read_back_spaces :
    let s := Session.ofText "\u3000One ,\u00a0two_2\n; three" grammar
    let upper : Options := some (.object [("upper", .bool true)])
    wordFields upper "One" = .ofList [("word", .string "ONE")] ∧
      ∃ ids s', s.handle grammar (.commaList "AnyWord" upper) = (.ok ids, s') ∧
        s.cursor.MovesTo "; three".toList s'.cursor ∧
        Written upper s.tree ["One", "two_2"] ids s'.tree := by
  intro s upper
  have hplain (w : String) (hne : w.toList ≠ []) (hw : w.toList.all Word.has) : IsPlain w :=
    ⟨hne, List.all_eq_true.1 hw⟩
  have hspread : Spread IsComma ["One", "two_2"]
      ("One".toList ++ (" ,\u00a0".toList ++ "two_2".toList)) :=
    .cons ⟨[' '], ['\u00a0'], rfl, List.all_eq_true.1 rfl, List.all_eq_true.1 rfl⟩ .last
  have hahead : s.cursor.ahead = ['\u3000'] ++
      (("One".toList ++ (" ,\u00a0".toList ++ "two_2".toList)) ++ (['\n'] ++ "; three".toList)) :=
    rfl
  refine ⟨rfl, (lists_read_back .empty (by decide) ?_ (List.all_eq_true.1 rfl)
    (List.all_eq_true.1 rfl) (.cons rfl) hahead upper).1 hspread (by decide) nofun⟩
  exact List.forall_mem_cons.2 ⟨hplain _ (by decide) (by decide),
    List.forall_mem_singleton.2 (hplain _ (by decide) (by decide))⟩

end Descent.Phrase
