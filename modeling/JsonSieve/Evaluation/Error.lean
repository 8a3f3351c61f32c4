import JsonSieve.Condition.Basic
import JsonSieve.Document.Failure

/-!
# Why a condition has no answer

A condition is not answered for a document that cannot be read, for a literal
that does not suit the value it is compared with, for an operator that means
nothing for such values, and for objects, which are not compared at all.
-/

namespace JsonSieve

/-- The kinds of values that are compared. -/
inductive Kind where
  /-- Strings. -/
  | string
  /-- Numbers. -/
  | number
  /-- Truth values. -/
  | boolean
  deriving DecidableEq

/-- The name of a kind of values. -/
def Kind.name : Kind → String
  | string => "string"
  | number => "number"
  | boolean => "boolean"

/-- Why a condition has no answer for a document. -/
inductive EvaluationError where
  /-- The document cannot be read. -/
  | unreadable (error : Document.ReadError)
  /-- A number is compared with a literal that is none. -/
  | notANumber (literal : String)
  /-- A truth value is compared with a literal that is none. -/
  | notABoolean (literal : String)
  /-- The operator means nothing for values of this kind. -/
  | unsupportedOperator (operator : Operator) (kind : Kind)
  /-- The path leads to an object. -/
  | comparedObject (path : String)
  deriving DecidableEq

/-- The wording of an error. -/
def EvaluationError.message : EvaluationError → String
  | unreadable error => s!"parse json error: {error.message}"
  | notANumber literal => s!"fail to parse '{literal}' as number"
  | notABoolean literal => s!"fail to parse '{literal}' as bool"
  | unsupportedOperator operator kind =>
    s!"unsupported operator: passed {operator.token} for {kind.name}"
  | comparedObject path => s!"unsupported type: object by path '{path}'"

end JsonSieve
