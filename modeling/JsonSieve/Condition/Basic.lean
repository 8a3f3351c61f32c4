/-!
# Conditions

A condition compares the values at a path of a document with a literal. The path
is a list of steps, each naming a key, indices into arrays, or a key and then
indices; it is kept as it was written besides, because messages quote it.

## Main declarations

* `JsonSieve.Operator` – the eight operators and the tokens that write them;
* `JsonSieve.Segment`, `JsonSieve.Path` – the steps into a document;
* `JsonSieve.Condition` – path, operator and literal;
* `JsonSieve.Condition.render` – the condition as text.
-/

namespace JsonSieve

/-! ### Operators -/

/-- What a condition asks of a value. -/
inductive Operator where
  /-- The value is the literal. -/
  | equal
  /-- The value is not the literal. -/
  | notEqual
  /-- The value is below the literal. -/
  | less
  /-- The value is not above the literal. -/
  | lessOrEqual
  /-- The value is above the literal. -/
  | greater
  /-- The value is not below the literal. -/
  | greaterOrEqual
  /-- Reserved: no value has a meaning for it yet. -/
  | like
  /-- Reserved, as the negation of `like`. -/
  | notLike
  deriving DecidableEq

namespace Operator

/-- The characters that write an operator. -/
def chars : Operator → List Char
  | equal => ['=']
  | notEqual => ['!', '=']
  | less => ['<']
  | lessOrEqual => ['<', '=']
  | greater => ['>']
  | greaterOrEqual => ['>', '=']
  | like => ['~']
  | notLike => ['!', '~']

/-- The token that writes an operator. -/
def token (op : Operator) : String := String.ofList op.chars

/-- All operators, those of two characters first, so that the first one a text
begins with is the longest. -/
def all : List Operator :=
  [notEqual, notLike, lessOrEqual, greaterOrEqual, equal, less, greater, like]

/-- The operator that a token writes. -/
def ofToken? (token : String) : Option Operator := all.find? fun op => op.chars == token.toList

/-- The longest operator that a text begins with. -/
def longest? (text : List Char) : Option Operator :=
  all.find? fun op => op.chars.isPrefixOf text

theorem mem_all (op : Operator) : op ∈ all := by
  cases op <;> decide

end Operator

/-- The characters of which operators consist. -/
def isOperatorChar (c : Char) : Bool :=
  c == '!' || c == '=' || c == '<' || c == '>' || c == '~'

/-! ### Paths -/

/-- One step of a path: into the member with a key, if there is one, and then
into the elements with the given indices, one after the other. -/
structure Segment where
  /-- The key, unless the step only has indices. -/
  key : Option String
  /-- The indices, counted from zero. -/
  indices : List Nat
  deriving DecidableEq

/-- A way into a document. -/
structure Path where
  /-- The path as it was written. -/
  written : String
  /-- The steps. -/
  segments : List Segment
  deriving DecidableEq

/-! ### Conditions -/

/-- A path, an operator and a literal. -/
structure Condition where
  /-- Where the values are. -/
  path : Path
  /-- How they are compared. -/
  operator : Operator
  /-- What they are compared with, without quotation marks around it. -/
  value : String
  deriving DecidableEq

namespace Condition

/-- The path as it was written, the operator and the literal, with single spaces
between them. The literal has no quotation marks around it. -/
def toChars (c : Condition) : List Char :=
  c.path.written.toList ++ ' ' :: (c.operator.chars ++ ' ' :: c.value.toList)

/-- The text of a condition. -/
def render (c : Condition) : String := String.ofList c.toChars

end Condition

end JsonSieve
