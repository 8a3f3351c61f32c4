import JsonSieve.Condition.Parser
import JsonSieve.Document.Printer
import JsonSieve.Evaluation.Match
import JsonSieve.Stream.Error
import JsonSieve.Stream.Line
import JsonSieve.Stream.Sink

/-!
# Filtering a stream

A stream is a sequence of lines, each blank or holding one document. A sieve
passes the documents that satisfy its condition, each in its written form and on
a line of its own. A line without an answer stops the run, or is dropped and
counted if the sieve is told to skip such lines.

The bytes arrive in pieces of any size (`Sieve.feed`), and a line is processed as
soon as its newline has arrived. The state in between is a `Session`. At the end
of the input the last line is processed, newline or not, and the sink is flushed
(`Sieve.close`); if reading fails instead, a line that is not complete is
dropped.

## Main declarations

* `JsonSieve.Sieve` – a condition, and what to do with lines without an answer;
* `JsonSieve.Sieve.processLine` – what happens to one line;
* `JsonSieve.Sieve.run`, `JsonSieve.Sieve.runText` – a whole run, from a source
  to a sink.
-/

namespace JsonSieve

/-! ### Sieves, sessions and outcomes -/

/-- What a run is to do. -/
structure Sieve where
  /-- What documents have to satisfy. -/
  condition : Condition
  /-- Whether lines without an answer are skipped. -/
  skipErrors : Bool

/-- Counts of lines that are not blank. -/
structure Stats where
  /-- All of them. -/
  read : Nat
  /-- Those with a document that satisfies the condition. -/
  matched : Nat
  /-- Those without an answer that were skipped. -/
  skipped : Nat
  deriving DecidableEq

/-- Nothing counted yet. -/
def Stats.zero : Stats := ⟨0, 0, 0⟩

/-- A run so far. -/
structure Session where
  /-- The bytes of the line that is being read, the last one first. -/
  pending : List UInt8
  /-- How many lines have been processed, blank ones included. -/
  lines : Nat
  /-- The counts. -/
  stats : Stats
  /-- Where the output goes. -/
  sink : Sink

/-- A run at its beginning. -/
def Session.start (sink : Sink) : Session := ⟨[], 0, .zero, sink⟩

/-- A run that has been stopped. -/
structure Stop where
  /-- Why. -/
  error : StreamError
  /-- Where the output went. -/
  sink : Sink

/-- A run that is over. -/
structure Outcome where
  /-- The counts, or why the run was stopped. -/
  result : Except StreamError Stats
  /-- The bytes that were written. -/
  output : Array UInt8

/-- The outcome of a run that has been stopped. -/
def Stop.outcome (stop : Stop) : Outcome := ⟨.error stop.error, stop.sink.accepted⟩

namespace Sieve

/-! ### Lines -/

/-- Writes a document on a line of its own. -/
def emit (s : Session) (d : Document) : Except Stop Session :=
  match s.sink.write (Utf8.encode (d.toChars ++ ['\n'])) with
  | (sink, some text) => .error ⟨.io text, sink⟩
  | (sink, none) => .ok { s with sink, stats := { s.stats with matched := s.stats.matched + 1 } }

/-- Processes the document on a line that is not blank. -/
def processContent (sieve : Sieve) (s : Session) (content : List UInt8) : Except Stop Session :=
  match sieve.condition.evaluate content with
  | .ok ⟨d, true⟩ => emit s d
  | .ok ⟨_, false⟩ => .ok s
  | .error e =>
    if sieve.skipErrors then
      .ok { s with stats := { s.stats with skipped := s.stats.skipped + 1 } }
    else .error ⟨.line s.lines e, s.sink⟩

/-- Processes a line. -/
def processLine (sieve : Sieve) (s : Session) (line : List UInt8) : Except Stop Session :=
  let s := { s with lines := s.lines + 1 }
  let content := Stream.content line
  if Stream.isBlankLine content then .ok s
  else sieve.processContent { s with stats := { s.stats with read := s.stats.read + 1 } } content

/-! ### Bytes -/

/-- Takes the next byte; a newline completes the line. -/
def push (sieve : Sieve) (s : Session) (b : UInt8) : Except Stop Session :=
  let pending := b :: s.pending
  if b = Ascii.newline then sieve.processLine { s with pending := [] } pending.reverse
  else .ok { s with pending }

/-- Takes the next bytes. -/
def feed (sieve : Sieve) (s : Session) (bytes : List UInt8) : Except Stop Session :=
  bytes.foldlM sieve.push s

/-- Taking bytes in two pieces is taking them at once. -/
theorem feed_append (sieve : Sieve) (s : Session) (a b : List UInt8) :
    sieve.feed s (a ++ b) = (sieve.feed s a).bind fun s => sieve.feed s b :=
  List.foldlM_append

/-- Taking bytes in any pieces is taking them at once. -/
theorem foldlM_feed (sieve : Sieve) (s : Session) (pieces : List (List UInt8)) :
    pieces.foldlM sieve.feed s = sieve.feed s pieces.flatten := by
  induction pieces generalizing s with
  | nil => rfl
  | cons piece rest ih =>
    rw [List.foldlM_cons, List.flatten_cons, feed_append]
    exact congrArg (Except.bind (sieve.feed s piece)) (funext fun t => ih t)

/-! ### The end -/

/-- Processes the last line, if it has no newline. -/
def lastLine (sieve : Sieve) (s : Session) : Except Stop Session :=
  if s.pending.isEmpty then .ok s
  else sieve.processLine { s with pending := [] } s.pending.reverse

/-- Flushes the sink. -/
def flush (s : Session) : Outcome :=
  match s.sink.flushFault with
  | some text => ⟨.error (.io text), s.sink.accepted⟩
  | none => ⟨.ok s.stats, s.sink.accepted⟩

/-- Ends a run at the end of the input. -/
def close (sieve : Sieve) (s : Session) : Outcome :=
  match sieve.lastLine s with
  | .error stop => stop.outcome
  | .ok s => flush s

end Sieve

/-! ### Whole runs -/

/-- Where input comes from. -/
structure Source where
  /-- The bytes, in the pieces in which they arrive. -/
  pieces : List (List UInt8)
  /-- What it says if reading fails after the last piece. -/
  fault : Option String

/-- All bytes at once. -/
def Source.ofBytes (bytes : List UInt8) : Source := ⟨[bytes], none⟩

/-- A whole run. -/
def Sieve.run (sieve : Sieve) (source : Source) (sink : Sink) : Outcome :=
  match source.pieces.foldlM sieve.feed (Session.start sink) with
  | .error stop => stop.outcome
  | .ok s =>
    match source.fault with
    | some text => ⟨.error (.io text), s.sink.accepted⟩
    | none => sieve.close s

/-- A whole run with the text of a condition. -/
def Sieve.runText (condition : String) (skipErrors : Bool) (source : Source) (sink : Sink) :
    Outcome :=
  match Condition.parse condition with
  | .error e => ⟨.error (.condition e), sink.accepted⟩
  | .ok c => Sieve.run ⟨c, skipErrors⟩ source sink

end JsonSieve
