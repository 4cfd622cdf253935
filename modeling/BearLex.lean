import BearLex.Command.Event
import BearLex.Command.Failure
import BearLex.Command.FileTree
import BearLex.Command.Options
import BearLex.Command.Path
import BearLex.Command.Session
import BearLex.Diagnostic.Action
import BearLex.Diagnostic.Basic
import BearLex.Diagnostic.Reporter
import BearLex.Encoding.Basic
import BearLex.Encoding.Decoder
import BearLex.Encoding.Decoder.Lemmas
import BearLex.Encoding.Fault
import BearLex.Encoding.SingleByte
import BearLex.Encoding.SingleByte.Lemmas
import BearLex.Encoding.Utf16
import BearLex.Encoding.Utf16.Lemmas
import BearLex.Encoding.Utf8
import BearLex.Encoding.Utf8.Lemmas
import BearLex.Encoding.Utf8.WellFormed
import BearLex.Main
import BearLex.Number.Binary64
import BearLex.Number.Magnitude
import BearLex.Number.Magnitude.Lemmas
import BearLex.Number.Pointed
import BearLex.Number.Reading
import BearLex.Number.Shortest
import BearLex.Proofs.Adjacency
import BearLex.Proofs.Collection
import BearLex.Proofs.Completion
import BearLex.Proofs.Composition
import BearLex.Proofs.Details
import BearLex.Proofs.Encodings
import BearLex.Proofs.Endings
import BearLex.Proofs.Extent
import BearLex.Proofs.Heads
import BearLex.Proofs.Isolation
import BearLex.Proofs.Layout
import BearLex.Proofs.Legible
import BearLex.Proofs.Limit
import BearLex.Proofs.LineByLine
import BearLex.Proofs.Lookahead
import BearLex.Proofs.MaximalMunch
import BearLex.Proofs.Monitor
import BearLex.Proofs.NumberLiterals
import BearLex.Proofs.Overrides
import BearLex.Proofs.Position
import BearLex.Proofs.PrintedNumbers
import BearLex.Proofs.Printout
import BearLex.Proofs.PromptSession
import BearLex.Proofs.Relayout
import BearLex.Proofs.Revision
import BearLex.Proofs.Rounding
import BearLex.Proofs.ScriptRun
import BearLex.Proofs.ShortestDigits
import BearLex.Proofs.Streams
import BearLex.Proofs.StrictReading
import BearLex.Proofs.Walk
import BearLex.Settings
import BearLex.Source.Character
import BearLex.Source.Cursor
import BearLex.Source.Listener
import BearLex.Source.Operation
import BearLex.Source.Reach
import BearLex.Source.Scan
import BearLex.Source.Segment
import BearLex.Source.Traversal
import BearLex.Text.Basic
import BearLex.Text.Blank
import BearLex.Text.ControlSequence
import BearLex.Text.DecimalDigit
import BearLex.Text.Lemmas
import BearLex.Text.Lines
import BearLex.Text.Lines.Lemmas
import BearLex.Text.Numeral
import BearLex.Text.Numeral.Lemmas
import BearLex.Text.Printable
import BearLex.Text.Quoted
import BearLex.Text.Quoted.Lemmas
import BearLex.Text.Ranges
import BearLex.Token.Basic
import BearLex.Token.Kind
import BearLex.Proofs.Classification
import BearLex.Proofs.FullForm
import BearLex.Proofs.Recovery
import BearLex.Diagnostic.LiveReporter
import BearLex.Proofs.Raising
import BearLex.Proofs.Integers
import BearLex.Proofs.Variables
