import JsonSieve.Text.Blank
import JsonSieve.Text.Utf8
import JsonSieve.Binary64.Shortest
import JsonSieve.Numeral
import JsonSieve.Document.Printer
import JsonSieve.Document.StringReader
import JsonSieve.Document.NumberReader
import JsonSieve.Document.Reader
import JsonSieve.Condition.Parser
import JsonSieve.Evaluation.Match
import JsonSieve.Stream.Session
import JsonSieve.Stream.Relay
import JsonSieve.CommandLine.Run
import JsonSieve.Main
import JsonSieve.Proofs.Text.Split
import JsonSieve.Proofs.Condition.Grammar
import JsonSieve.Proofs.Condition.PathReading
import JsonSieve.Proofs.Condition.Uniqueness
import JsonSieve.Proofs.Condition.Reading
import JsonSieve.Proofs.Evaluation.Judgement
import JsonSieve.Proofs.Evaluation.Leaves
import JsonSieve.Proofs.Stream.Lines
import JsonSieve.Proofs.Stream.Meaning
import JsonSieve.Proofs.Binary64.Exact
import JsonSieve.Proofs.Number.Text
import JsonSieve.Proofs.Number.Reading
import JsonSieve.Proofs.Number.Agreement
import JsonSieve.Proofs.Number.Equation
import JsonSieve.Proofs.Condition.Writing
import JsonSieve.Proofs.Condition.Rendering
import JsonSieve.Proofs.Stream.Faults
import JsonSieve.Proofs.Number.Written
import JsonSieve.Proofs.Text.Utf8
import JsonSieve.Proofs.Document.Strings
import JsonSieve.Proofs.Document.Shape
import JsonSieve.Proofs.Document.RoundTrip
import JsonSieve.Proofs.Stream.Again
import JsonSieve.Proofs.Stream.Concatenation
import JsonSieve.Proofs.Stream.Skipping
import JsonSieve.Proofs.Condition.Regions
import JsonSieve.Proofs.Condition.Refusal
import JsonSieve.Proofs.Stream.Relay
import JsonSieve.Proofs.CommandLine.Calls
import JsonSieve.Proofs.CommandLine.Program
import JsonSieve.Proofs.Evaluation.Coherence
import JsonSieve.Proofs.Evaluation.Indices
import JsonSieve.Proofs.Evaluation.Pruning
import JsonSieve.Proofs.Document.Canonical
import JsonSieve.Proofs.Document.Spelling
import JsonSieve.Proofs.Evaluation.Spellings
import JsonSieve.Proofs.Binary64.Monotone
import JsonSieve.Proofs.Binary64.Nearest
import JsonSieve.Proofs.Number.Integers
import JsonSieve.Proofs.Number.Selection
import JsonSieve.Proofs.Stream.Framing
import JsonSieve.Proofs.Stream.Delimiting
import JsonSieve.Proofs.Condition.QuotedKeys
import JsonSieve.Proofs.Document.Places
import JsonSieve.Proofs.Stream.Positions
