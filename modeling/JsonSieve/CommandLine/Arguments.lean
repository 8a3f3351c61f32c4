/-!
# Arguments of the command

The command is `filter`, with a condition that must be given exactly once and a
flag that may be given once. The condition is given as `-c V`, `-cV`, `-c=V`,
`--condition V` or `--condition=V`; where the value is an argument of its own, it
may not begin with a dash unless it is a single dash. In place of the command the
version can be asked for.

Options are recognised in their full form only (`Argument.ofChars`). The
arguments are read from left to right, keeping what has been given (`Given`).
The main declaration is `JsonSieve.CommandLine.Request.ofArguments`.
-/

namespace JsonSieve

namespace CommandLine

/-- What a command line asks for. -/
inductive Request where
  /-- The version. -/
  | version
  /-- A run with the text of a condition, and whether the flag to skip lines
  without an answer was given. -/
  | filter (condition : String) (skipErrors : Bool)
  /-- Nothing that makes sense. -/
  | misuse
  deriving DecidableEq

/-- What one argument of `filter` is. -/
inductive Argument where
  /-- The option for the condition, with its value. -/
  | condition (value : String)
  /-- The option for the condition, its value being the next argument. -/
  | conditionNext
  /-- The flag to skip lines without an answer. -/
  | skipErrors
  /-- The mark after which nothing is an option. -/
  | endOfOptions
  /-- Anything else. -/
  | unknown
  deriving DecidableEq

/-- The value that is attached to a short option; one equals sign before it does
not belong to it. -/
def attached : List Char → List Char
  | '=' :: value => value
  | value => value

/-- What an argument is. -/
def Argument.ofChars (text : List Char) : Argument :=
  if text = "--skip-err-lines".toList then skipErrors
  else if text = "--".toList then endOfOptions
  else if text = "--condition".toList ∨ text = "-c".toList then conditionNext
  else if "--condition=".toList.isPrefixOf text then
    condition (String.ofList (text.drop "--condition=".length))
  else if "-c".toList.isPrefixOf text then
    condition (String.ofList (attached (text.drop "-c".length)))
  else unknown

/-- Whether an argument may be the value of an option before it. -/
def isValue (text : List Char) : Bool := text.head? != some '-' || text == ['-']

/-- What has been given so far. -/
structure Given where
  /-- The condition. -/
  condition : Option String
  /-- Whether the flag was given. -/
  skipErrors : Bool

/-- The request that what was given amounts to. -/
def Given.request (given : Given) : Request :=
  match given.condition with
  | none => .misuse
  | some condition => .filter condition given.skipErrors

/-- Reads the arguments of `filter`. -/
def ofFilterArguments (given : Given) : List String → Request
  | [] => given.request
  | a :: rest =>
    match Argument.ofChars a.toList with
    | .condition value =>
      if given.condition.isSome then .misuse
      else ofFilterArguments { given with condition := some value } rest
    | .conditionNext =>
      match rest with
      | [] => .misuse
      | value :: rest =>
        if given.condition.isSome || !isValue value.toList then .misuse
        else ofFilterArguments { given with condition := some value } rest
    | .skipErrors =>
      if given.skipErrors then .misuse
      else ofFilterArguments { given with skipErrors := true } rest
    | .endOfOptions => if rest.isEmpty then given.request else .misuse
    | .unknown => .misuse

/-- Reads the arguments after the program's name. -/
def Request.ofArguments : List String → Request
  | [] => .misuse
  | a :: rest =>
    if a = "filter" then ofFilterArguments ⟨none, false⟩ rest
    else if a = "--version" ∨ "-V".toList.isPrefixOf a.toList then .version
    else .misuse

end CommandLine

end JsonSieve
