import JsonSieve.Document.Basic
import JsonSieve.Evaluation.Error
import JsonSieve.Numeral

/-!
# Comparing one value

Strings are compared by their bytes, numbers as doubles, and truth values only
for being equal or not. The literal of the condition is read as the kind of the
value, and that it cannot be read so is noticed before that the operator means
nothing. A null never satisfies a condition.
-/

namespace JsonSieve

/-- Whether an operator holds between two values in the given order, or between
two that are in none. The reserved operators have no meaning. -/
def Operator.holds? (op : Operator) (order : Option Ordering) : Option Bool :=
  match op with
  | .equal => some (order = some .eq)
  | .notEqual => some (order ≠ some .eq)
  | .less => some (order = some .lt)
  | .lessOrEqual => some (order = some .lt ∨ order = some .eq)
  | .greater => some (order = some .gt)
  | .greaterOrEqual => some (order = some .gt ∨ order = some .eq)
  | .like => none
  | .notLike => none

/-- The truth value that a literal writes. -/
def booleanLiteral? (literal : String) : Option Bool :=
  if literal ∈ ["1", "t", "T", "TRUE", "true", "True"] then some true
  else if literal ∈ ["0", "f", "F", "FALSE", "false", "False"] then some false
  else none

namespace Condition

/-- The answer of the operator for values of a kind, given their order. -/
def decideOrder (c : Condition) (kind : Kind) (order : Option Ordering) :
    Except EvaluationError Bool :=
  match c.operator.holds? order with
  | some answer => .ok answer
  | none => .error (.unsupportedOperator c.operator kind)

/-- A string against the literal. -/
def testString (c : Condition) (s : String) : Except EvaluationError Bool :=
  c.decideOrder .string (some (Utf8.order s c.value))

/-- A number against the literal. -/
def testNumber (c : Condition) (n : Document.Number) : Except EvaluationError Bool :=
  match Binary64.ofChars? c.value.toList with
  | none => .error (.notANumber c.value)
  | some literal => c.decideOrder .number (n.toBinary64.compare? literal)

/-- A truth value against the literal. -/
def testBoolean (c : Condition) (b : Bool) : Except EvaluationError Bool :=
  match booleanLiteral? c.value with
  | none => .error (.notABoolean c.value)
  | some literal =>
    match c.operator with
    | .equal => .ok (b == literal)
    | .notEqual => .ok (b != literal)
    | op => .error (.unsupportedOperator op .boolean)

/-- One value against the literal. Arrays are not compared but their elements
are, so that an array by itself satisfies nothing. -/
def verdict (c : Condition) : Document → Except EvaluationError Bool
  | .null => .ok false
  | .bool b => c.testBoolean b
  | .number n => c.testNumber n
  | .string s => c.testString s
  | .array _ => .ok false
  | .object _ => .error (.comparedObject c.path.written)

end Condition

end JsonSieve
