import JsonSieve.Condition.Basic

/-!
# Why a text is not a condition

Every cause but one is an invalid expression; the other one is an operator that
does not exist, which is reported with all its characters.
-/

namespace JsonSieve

/-- What is wrong with the text of a condition. -/
inductive ConditionError where
  /-- Nothing but blanks. -/
  | emptyExpression
  /-- No operator outside quotation marks. -/
  | noOperator (text : String)
  /-- A run of operator characters that begins with no operator. -/
  | unknownOperator (token : String)
  /-- Nothing before the operator. -/
  | emptyPath (operator : Operator)
  /-- A quotation mark without its partner. -/
  | unterminatedQuote (quote : Char)
  /-- An opening bracket without its partner. -/
  | unterminatedBracket
  /-- Something other than an index between brackets. -/
  | invalidIndex (text : String)
  /-- Something other than a point after a step. -/
  | unexpected (text : String)
  /-- A step with neither a key nor an index. -/
  | emptySegment
  deriving DecidableEq

namespace ConditionError

/-- Whether the operator is to blame, and not the expression. -/
def blamesOperator : ConditionError → Bool
  | unknownOperator _ => true
  | _ => false

/-- What is wrong, without saying with what. -/
def detail : ConditionError → String
  | emptyExpression => "empty expression"
  | noOperator text => s!"no operator found in '{text}'"
  | unknownOperator token => s!"found operator {token}"
  | emptyPath operator => s!"empty path before operator {operator.token}"
  | unterminatedQuote quote => s!"unterminated {quote} in path"
  | unterminatedBracket => "unterminated [ in path"
  | invalidIndex text => s!"invalid array index '{text}'"
  | unexpected text => s!"unexpected '{text}' in path"
  | emptySegment => "empty path segment"

/-- The wording of an error. -/
def message (e : ConditionError) : String :=
  (if e.blamesOperator then "invalid operator: " else "invalid expression: ") ++ e.detail

end ConditionError

end JsonSieve
