import JsonSieve.CommandLine.Arguments
import JsonSieve.CommandLine.Report
import JsonSieve.Condition.Parser
import JsonSieve.Stream.Relay

/-!
# Running the command

A run of the program depends on its arguments, on one variable of its environment
and on its standard input, and it ends with an exit code and what it wrote to
standard output and standard error (`CommandLine.runPieces`). The code is 0 for a
run that came to its end, 1 for one that was stopped and 2 for a command line that
makes no sense.

The condition is read before any input. Lines without an answer are skipped if
the flag or the variable says so.

Two more things around a run are taken as given. A file `.env` may set variables that
are not set yet, before anything else happens; the value of the variable is the one that
is seen after that. And messages of the program about its own work are for a log, which
is at its default level: only errors would be written to standard error, and there are no
such messages.
-/

namespace JsonSieve

namespace CommandLine

/-- What is printed for the version. -/
def versionText : String := "jsonstream-rs 0.1.0\n"

/-- The variable that has lines without an answer skipped. -/
def skipVariable : String := "JSONSTREAM_SKIP_ERR_LINES"

/-- Whether a value of the variable asks for skipping: `1`, or `true` in any
case. -/
def asksToSkip (value : String) : Bool :=
  value == "1" || value.toList.map Char.toLower == ['t', 'r', 'u', 'e']

/-- What the program leaves behind. -/
structure Exit where
  /-- The exit code. -/
  code : Nat
  /-- The bytes written to standard output. -/
  output : List UInt8
  /-- The text written to standard error. -/
  errors : String

/-- The end after the version was printed. -/
def Exit.version : Exit := ⟨0, Utf8.bytes versionText, ""⟩

/-- The end after a command line that makes no sense. -/
def Exit.misuse : Exit := ⟨2, [], ""⟩

/-- The report of a condition that cannot be read. -/
def conditionReport (e : ConditionError) : String := report "parse filter error" [e.message]

/-- The report of a run that was stopped. -/
def streamReport (e : StreamError) : String := report "filter error" (e.message :: e.sources)

/-- The end of a run. -/
def Exit.ofOutcome (outcome : Outcome) : Exit :=
  match outcome.result with
  | .ok _ => ⟨0, outcome.output.toList, ""⟩
  | .error e => ⟨1, outcome.output.toList, streamReport e⟩

/-- The sieve for a condition, if the condition can be read; the value is that of
the variable, if it is set to a text. -/
def sieve (condition : String) (skipErrors : Bool) (variableValue : Option String) :
    Except ConditionError Sieve :=
  match Condition.parse condition with
  | .error e => .error e
  | .ok c => .ok ⟨c, skipErrors || variableValue.any asksToSkip⟩

/-- A run of the program, its standard input being no terminal and arriving in pieces. The
value of the variable is that after a file `.env` has been read, and the log is at its
default level. -/
def runPieces (arguments : List String) (variableValue : Option String)
    (pieces : List (List UInt8)) : Exit :=
  match Request.ofArguments arguments with
  | .version => .version
  | .misuse => .misuse
  | .filter condition skipErrors =>
    match sieve condition skipErrors variableValue with
    | .error e => ⟨1, [], conditionReport e⟩
    | .ok sieve => .ofOutcome (sieve.relayAll (.start .unlimited) pieces)

/-- A run of the program whose standard input arrives at once. -/
def run (arguments : List String) (variableValue : Option String) (input : List UInt8) : Exit :=
  runPieces arguments variableValue [input]

end CommandLine

end JsonSieve
