import JsonSieve.Condition.Parser
import JsonSieve.Proofs.Text.Split

/-!
# The grammar of conditions

A condition is written as a path, an operator and a literal. This file says which
texts those are, without reading them: a way to write a condition is a tree, and
the tree spells its text.

| part | tree | text |
|---|---|---|
| an index | `JsonSieve.Grammar.Index` | `JsonSieve.Grammar.Index.text` |
| a step | `JsonSieve.Grammar.Step` | `JsonSieve.Grammar.Step.text` |
| a step among blanks | `JsonSieve.Grammar.Spaced` | `JsonSieve.Grammar.Spaced.text` |
| a path | `JsonSieve.Grammar.Steps` | `JsonSieve.Grammar.Steps.text` |

The literal is the rest of the text. It is worth what is between its quotation marks, if it
is enclosed in them, and itself if it is not (`JsonSieve.Grammar.Literal`).

The trees carry what the grammar asks of their parts, so that there are no trees
but the ones that may be written. Only a quoted key may hold operator characters;
`JsonSieve.Grammar.Steps.unquoted` is what is left of a path without its quoted
keys, and a whole condition (`JsonSieve.Grammar.Derivation`) asks that no operator
begins there.

No tree says how it is found. That a text has at most one tree is a fact about the
texts (`JsonSieve.Grammar.Derivation.eq` in `JsonSieve.Proofs.Condition.Reading`),
and so is that reading a condition finds it.
-/

namespace JsonSieve

namespace Grammar

/-- Any number of blanks. -/
abbrev Blanks : Type := { w : List Char // ∀ c ∈ w, Text.isBlank c = true }

/-- No blanks. -/
def noBlanks : Blanks := ⟨[], by simp⟩

/-! ### Indices -/

/-- An index between brackets, with blanks around its digits. -/
structure Index where
  /-- The blanks before the digits. -/
  before : Blanks
  /-- The digits. -/
  digits : List Char
  /-- The blanks after the digits. -/
  after : Blanks
  /-- There is a digit. -/
  digits_ne_nil : digits ≠ []
  /-- They are decimal digits. -/
  isDigit : ∀ c ∈ digits, c.isDigit = true
  /-- They write a number of 64 bits. -/
  lt_limit : Nat.ofDigitChars 10 digits 0 < Nat.pow 2 64

namespace Index

/-- The number that the digits write. -/
def value (i : Index) : Nat := Nat.ofDigitChars 10 i.digits 0

/-- What stands between the brackets. -/
def inner (i : Index) : List Char := i.before.1 ++ (i.digits ++ i.after.1)

/-- The text of an index. -/
def text (i : Index) : List Char := '[' :: (i.inner ++ [']'])

/-- The text of indices, with nothing between them. -/
def texts : List Index → List Char
  | [] => []
  | i :: is => i.text ++ texts is

@[simp] theorem texts_nil : texts [] = [] := rfl

@[simp] theorem texts_cons (i : Index) (is : List Index) : texts (i :: is) = i.text ++ texts is :=
  rfl

end Index

/-! ### Steps -/

/-- A key that may be written without quotation marks. -/
structure IsBareKey (key : List Char) : Prop where
  /-- It is not empty. -/
  ne_nil : key ≠ []
  /-- It has blanks at neither end. -/
  isTrimmed : Text.IsTrimmed key
  /-- It does not begin with a quotation mark. -/
  head_not_quote : Stops isQuote key
  /-- It has no point, which would end the step. -/
  point_not_mem : '.' ∉ key
  /-- It has no opening bracket, which would begin an index. -/
  bracket_not_mem : '[' ∉ key
  /-- It has no character of an operator. -/
  not_operator : ∀ c ∈ key, isOperatorChar c = false

/-- A step of a path. -/
inductive Step where
  /-- A key between two equal quotation marks, and indices directly after it. -/
  | quoted (quote : Char) (key : List Char) (indices : List Index)
    (quote_isQuote : isQuote quote = true) (quote_not_mem : quote ∉ key)
  /-- A bare key, and indices, before which blanks may stand if there are any. -/
  | bare (key : List Char) (gap : Blanks) (indices : List Index) (isBareKey : IsBareKey key)
    (gap_eq_nil : indices = [] → gap = noBlanks)
  /-- Indices without a key. -/
  | indexed (first : Index) (more : List Index)

namespace Step

/-- The text of a step. -/
def text : Step → List Char
  | quoted q key indices _ _ => q :: (key ++ q :: Index.texts indices)
  | bare key gap indices _ _ => key ++ (gap.1 ++ Index.texts indices)
  | indexed first more => Index.texts (first :: more)

/-- The text of a step without its key, if that is quoted. -/
def unquoted : Step → List Char
  | quoted _ _ indices _ _ => Index.texts indices
  | bare key gap indices h hgap => (bare key gap indices h hgap).text
  | indexed first more => (indexed first more).text

/-- The step that is written. -/
def segment : Step → Segment
  | quoted _ key indices _ _ => ⟨some (String.ofList key), indices.map Index.value⟩
  | bare key _ indices _ _ => ⟨some (String.ofList key), indices.map Index.value⟩
  | indexed first more => ⟨none, (first :: more).map Index.value⟩

end Step

/-- A step with blanks around it. -/
structure Spaced where
  /-- The blanks before the step. -/
  before : Blanks
  /-- The step. -/
  step : Step
  /-- The blanks after the step. -/
  after : Blanks

namespace Spaced

/-- The text of a step with the blanks around it. -/
def text (s : Spaced) : List Char := s.before.1 ++ (s.step.text ++ s.after.1)

/-- The same without a quoted key. -/
def unquoted (s : Spaced) : List Char := s.before.1 ++ (s.step.unquoted ++ s.after.1)

end Spaced

/-! ### Paths -/

/-- One step or more, with points between them. -/
inductive Steps where
  /-- The last step. -/
  | last (s : Spaced)
  /-- A step before others. -/
  | cons (s : Spaced) (rest : Steps)

namespace Steps

/-- The text of a path. -/
def text : Steps → List Char
  | last s => s.text
  | cons s rest => s.text ++ '.' :: rest.text

/-- The text of a path without its quoted keys. -/
def unquoted : Steps → List Char
  | last s => s.unquoted
  | cons s rest => s.unquoted ++ '.' :: rest.unquoted

/-- The steps that are written. -/
def segments : Steps → List Segment
  | last s => [s.step.segment]
  | cons s rest => s.step.segment :: rest.segments

end Steps

/-! ### Literals -/

/-- **What a text is worth as a literal.** -/
inductive Literal : List Char → List Char → Prop
  /-- Between two equal quotation marks anything may stand, and is what the literal is worth. -/
  | quoted {quote : Char} (value : List Char) (quote_isQuote : isQuote quote = true) :
    Literal (quote :: (value ++ [quote])) value
  /-- A text that is not enclosed in quotation marks is worth itself. -/
  | bare {text : List Char}
    (not_enclosed : ∀ quote value, isQuote quote = true → text ≠ quote :: (value ++ [quote])) :
    Literal text text

/-! ### Conditions -/

/-- **A way to write a condition**: the text falls into the path with blanks around
it, an operator, and a literal with blanks around it. -/
@[ext]
structure Derivation (text : List Char) where
  /-- The text before the operator. -/
  before : List Char
  /-- The operator. -/
  operator : Operator
  /-- The text after the operator. -/
  after : List Char
  /-- The path. -/
  steps : Steps
  /-- What the literal is worth. -/
  value : List Char
  /-- Nothing else is in the text. -/
  text_eq : text = before ++ (operator.chars ++ after)
  /-- The path is what is before the operator, blanks apart. -/
  trim_before : Text.trim before = steps.text
  /-- The literal is what is after the operator, blanks apart. -/
  literal : Literal (Text.trim after) value
  /-- No operator begins before, except in a quoted key. -/
  not_operator : ∀ c ∈ steps.unquoted, isOperatorChar c = false
  /-- No longer operator begins where this one begins. -/
  longest : ∀ op : Operator, op.chars <+: operator.chars ++ after →
    op.chars.length ≤ operator.chars.length

/-- The condition that is written. -/
def Derivation.condition {text : List Char} (d : Derivation text) : Condition where
  path := ⟨String.ofList (Text.trim d.before), d.steps.segments⟩
  operator := d.operator
  value := String.ofList d.value

end Grammar

end JsonSieve
