import Descent.Json.Printer
import Descent.Session.Parse

/-!
# Phrases

A grammar of words, numbers and what can be made of them: greetings, sentences and words in nested
parentheses. Two of its productions are there to be refused: one consumes nothing, one is not
written so that it can be read again.
-/

namespace Descent.Phrase

def digitsPattern : BoundRegex :=
  { source := "\\d+"
    regex := .seq (.anchor .start) (.plus true (.char .digits)) }

example : (BoundRegex.ofSource digitsPattern.source).toOption = some digitsPattern := by
  decide +kernel

def lettersPattern : BoundRegex :=
  { source := "[a-z]+"
    regex := .seq (.anchor .start) (.plus true (.char (.range 'a' 'z'))) }

example : (BoundRegex.ofSource lettersPattern.source).toOption = some lettersPattern := by
  decide +kernel

/-- A word in capitals. -/
def capitals (word : String) : String :=
  String.ofList (word.toList.map Char.toUpper)

/-- Any word with the space after it, in capitals if the options say so. -/
def anyWord : Production where
  name := "AnyWord"
  starts _ s _ := .ok (s.cursor.seesWord none).1
  body options := do
    let word ← .takeThisWord none
    return .ofList
      [("word", .string (if Options.flag options "upper" then capitals word else word))]
  write _ fields _ := fields.text "word"

/-- The value of digits; zero if they are not all ASCII or make a number past 63 bits. -/
def digitsValue (digits : List Char) : Nat :=
  ((Text.decimal? digits).filter (· < Nat.pow 2 63)).getD 0

/-- A number; the space after it is left. -/
def number : Production where
  name := "Number"
  starts _ s _ := s.cursor.sees (.regex digitsPattern)
  body _ := do
    let digits ← .take (.regex digitsPattern) none
    return .ofList [("value", .scalar (.int (digitsValue digits.toList)))]
  write _ fields _ :=
    match fields.scalar? "value" with
    | some value => value.text
    | none => ""

/-- Small letters; the space after them is left. -/
def letters : Production where
  name := "Letters"
  starts _ s _ := s.cursor.sees (.regex lettersPattern)
  body _ := do
    let word ← .take (.regex lettersPattern) none
    return .ofList [("word", .string word)]
  write _ fields _ := fields.text "word"

/-- The word `hello` and any word. -/
def greeting : Production where
  name := "Greeting"
  starts _ s _ := .ok (s.cursor.seesWord (some "hello")).1
  body options := do
    let _ ← .takeThisWord (some "hello")
    return .ofList [("name", .node (← .parse "AnyWord" options))]
  write child fields options := "hello " ++ fields.nodeText child options "name"

/-- Words with space between them and a full stop at the end. -/
def sentence : Production where
  name := "Sentence"
  starts _ s _ := .ok (s.cursor.seesWord none).1
  body options := do
    let words ← .series "AnyWord" options
    let _ ← .take (.literal ".") none
    return .ofList [("words", .list words)]
  write child fields options :=
    " ".intercalate (fields.listTexts child options "words") ++ "."

/-- A word, or another of these in parentheses. -/
def nested : Production where
  name := "Nested"
  starts _ s _ := do
    if ← s.cursor.sees (.literal "(") then return true
    return (s.cursor.seesWord none).1
  body options := do
    match ← .take? (.literal "(") with
    | some _ =>
      let inner ← .parse "Nested" options
      let _ ← .take (.literal ")") none
      return .ofList [("inner", .node inner)]
    | none => return .ofList [("word", .string (← .takeThisWord none))]
  write child fields options :=
    match fields.node? "inner" with
    | some inner => "(" ++ child inner options ++ ")"
    | none => fields.text "word"

/-- Nothing: it is at the cursor everywhere and consumes no text. -/
def nothing : Production where
  name := "Empty"
  starts _ _ _ := .ok true
  body _ := return .empty
  write _ _ _ := ""

/-- A word that is written as something else. -/
def garbled : Production where
  name := "Garbled"
  starts _ s _ := .ok (s.cursor.seesWord none).1
  body _ := do
    let word ← .takeThisWord none
    return .ofList [("word", .string word)]
  write _ _ _ := "***"

def grammar : Grammar :=
  ⟨[anyWord, number, letters, greeting, sentence, nested, nothing, garbled], by decide⟩

example : Grammar.ofList grammar.productions = .ok grammar := by rfl

end Descent.Phrase
