import Descent.Fixture
import Descent.Json.Reader
import Descent.Main
import Descent.Phrase
import Descent.Settings.Json
import Descent.Proofs.Cursor.Movement
import Descent.Proofs.Cursor.Recall
import Descent.Proofs.Tree.Growth
import Descent.Proofs.Tree.Ownership
import Descent.Proofs.Session.Growth
import Descent.Proofs.Tree.Walk
import Descent.Proofs.Cursor.Local
import Descent.Proofs.Tree.Shift
import Descent.Proofs.Program.Local
import Descent.Proofs.Program.Grammars
import Descent.Proofs.Session.Progress
import Descent.Proofs.Session.Depth
import Descent.Proofs.Session.Local
import Descent.Proofs.Session.Reach
import Descent.Proofs.Regex.Fronts
import Descent.Proofs.Cursor.Span
import Descent.Proofs.Text.Boundary
import Descent.Proofs.Cursor.Pointer
import Descent.Proofs.Cursor.Safety
import Descent.Proofs.Cursor.Run
import Descent.Proofs.Script.Lexemes
import Descent.Proofs.Session.Reading
import Descent.Proofs.Session.Repetition
import Descent.Proofs.Session.RoundTrip
import Descent.Proofs.Session.Words
import Descent.Proofs.Script.Language
import Descent.Proofs.Script.Reader
import Descent.Proofs.Script.Parsing
import Descent.Proofs.Text.Digit
import Descent.Proofs.Decimal.Literal
import Descent.Proofs.Script.Soundness
import Descent.Proofs.Script.Completeness
import Descent.Proofs.Script.Recognition
import Descent.Proofs.Decimal.ReadBack
import Descent.Proofs.Script.Printing
import Descent.Proofs.Script.RoundTrip
import Descent.Proofs.Script.Replay
import Descent.Proofs.Session.Advance
import Descent.Proofs.Regex.Enclosed
import Descent.Proofs.Regex.Bound
import Descent.Proofs.Session.Shape
import Descent.Proofs.Script.Shape
import Descent.Proofs.Phrase.Parsing
import Descent.Proofs.Phrase.RoundTrip
import Descent.Proofs.Session.History
import Descent.Proofs.Text.Lines
import Descent.Proofs.Cursor.Position
import Descent.Proofs.Cursor.Window
import Descent.Proofs.Tree.Loose
import Descent.Proofs.Session.Success
import Descent.Proofs.Script.Account
import Descent.Proofs.Cursor.Line
import Descent.Proofs.Session.Objection
import Descent.Proofs.Script.Literal
import Descent.Proofs.Script.Encoding
import Descent.Proofs.Tree.Renaming
import Descent.Proofs.Tree.Containment
import Descent.Proofs.Tree.Duplicate
import Descent.Proofs.Session.Copy
import Descent.Proofs.Session.Insertion
import Descent.Proofs.Session.Rounds
import Descent.Proofs.Session.Series
import Descent.Proofs.Session.CommaList
import Descent.Proofs.Phrase.Layout
import Descent.Proofs.Session.Forward
import Descent.Proofs.Program.Consumption
import Descent.Proofs.Session.Failures
import Descent.Proofs.Program.Termination
import Descent.Proofs.Session.Settings
import Descent.Proofs.Session.Exchange
import Descent.Proofs.Script.Lookahead
import Descent.Proofs.Script.Order
import Descent.Proofs.Session.Ancestry
import Descent.Proofs.Cursor.Prediction
import Descent.Proofs.Phrase.Nesting
import Descent.Proofs.Session.Pointing
import Descent.Proofs.Json.Canonical
import Descent.Proofs.Json.Inclusion
import Descent.Proofs.Session.Fixture
import Descent.Proofs.Cursor.CodePoint
import Descent.Proofs.Text.Bytes
import Descent.Proofs.Tree.Fields
