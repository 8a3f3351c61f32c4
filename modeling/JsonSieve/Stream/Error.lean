import JsonSieve.Condition.Error
import JsonSieve.Evaluation.Error

/-!
# Why a run stops

A run stops because its condition cannot be read, because a line has no answer,
because reading or writing failed, or because there is nothing to read from but a
terminal. An error wraps the one below it: `StreamError.sources` lists what is
wrapped, from the outside in.
-/

namespace JsonSieve

/-- Why a run stops. -/
inductive StreamError where
  /-- The text of the condition is none. -/
  | condition (error : ConditionError)
  /-- A line, counted from one, has no answer. -/
  | line (number : Nat) (error : EvaluationError)
  /-- Reading or writing failed, in the words of whoever failed. -/
  | io (text : String)
  /-- Standard input is a terminal. -/
  | interactive
  deriving DecidableEq

/-- What lies below an error with a document. -/
def EvaluationError.sources : EvaluationError → List String
  | unreadable error => [error.message]
  | _ => []

namespace StreamError

/-- The wording of an error. -/
def message : StreamError → String
  | condition error => s!"parse filter error: {error.message}"
  | line number error => s!"process line {number} error: {error.message}"
  | io text => text
  | interactive => "the command is intended to work with pipes"

/-- The wordings of the errors that an error wraps, from the outside in. -/
def sources : StreamError → List String
  | condition error => [error.message]
  | line _ error => error.message :: error.sources
  | io _ => []
  | interactive => []

end StreamError

end JsonSieve
