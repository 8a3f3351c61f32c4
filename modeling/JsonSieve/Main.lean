import JsonSieve.CommandLine.Run

/-!
# The program

Carries out what `JsonSieve.CommandLine` says about a command line: standard
input is fed to the sieve in the pieces in which it arrives, and what is to be
passed on then (`JsonSieve.Sieve.relay`) is written to standard output.
-/

namespace JsonSieve

namespace Main

/-- How the program is called. -/
def usage : String := "Usage: jsonstream filter --condition <CONDITION> [--skip-err-lines]\n"

/-- Does something that may fail, and says in a run's words that it did. -/
def attempt {α : Type} (action : IO α) : IO (Except StreamError α) := do
  try
    return .ok (← action)
  catch e =>
    return .error (.io (toString e))

/-- Passes bytes on to standard output. -/
def passOn (bytes : Array UInt8) : IO (Except StreamError Unit) := attempt do
  let output ← IO.getStdout
  output.write ⟨bytes⟩
  output.flush

/-- Reports why a run was stopped. -/
def stopped (e : StreamError) : IO UInt32 := do
  IO.eprint (CommandLine.streamReport e)
  return 1

/-- Passes the last output on and says how the run ended. -/
def finish (outcome : Outcome) : IO UInt32 := do
  match ← passOn outcome.output, outcome.result with
  | .error e, _ => stopped e
  | .ok _, .error e => stopped e
  | .ok _, .ok _ => return 0

/-- Feeds standard input to the sieve until it ends or the run is stopped. -/
partial def pump (sieve : Sieve) (session : Session) : IO UInt32 := do
  let input ← IO.getStdin
  match ← attempt (input.read 65536) with
  | .error e => finish ⟨.error e, session.sink.accepted⟩
  | .ok piece =>
    if piece.isEmpty then finish (sieve.close session)
    else
      let (output, next) := sieve.relay session piece.toList
      match ← passOn output, next with
      | .error e, _ => stopped e
      | .ok _, .error e => stopped e
      | .ok _, .ok session => pump sieve session

/-- Filters standard input, unless it is a terminal. -/
def filterInput (sieve : Sieve) : IO UInt32 := do
  if ← (← IO.getStdin).isTty then
    IO.eprint (CommandLine.report StreamError.interactive.message [])
    return 1
  pump sieve (.start .unlimited)

end Main

end JsonSieve

open JsonSieve in
/-- The program. -/
def main (arguments : List String) : IO UInt32 := do
  match CommandLine.Request.ofArguments arguments with
  | .version =>
    IO.print CommandLine.versionText
    return 0
  | .misuse =>
    IO.eprint Main.usage
    return 2
  | .filter condition skipErrors =>
    match CommandLine.sieve condition skipErrors (← IO.getEnv CommandLine.skipVariable) with
    | .error e =>
      IO.eprint (CommandLine.conditionReport e)
      return 1
    | .ok sieve => Main.filterInput sieve
