import JsonSieve.Condition.Error
import JsonSieve.Text.Blank

/-!
# Finding the operator

The operator of a condition is at the first operator character that stands
outside quotation marks. A quotation mark opens a quoted key only where a step of
the path begins, that is at the start and after a point, blanks apart; anywhere
else it is a character like any other. Three states are enough to tell
(`ScanState`).
-/

namespace JsonSieve

/-- The two quotation marks, either of which may surround a key or a literal. -/
def isQuote (c : Char) : Bool := c == '\'' || c == '"'

/-- Where a character of a path stands. -/
inductive ScanState where
  /-- Where a step begins. -/
  | start
  /-- In a step, outside quotation marks. -/
  | inside
  /-- In a key that the given quotation mark has opened. -/
  | quoted (quote : Char)
  deriving DecidableEq

namespace ScanState

/-- Where the character after `c` stands. -/
def next (c : Char) : ScanState → ScanState
  | start =>
    if isQuote c then quoted c
    else if c = '.' ∨ Text.isBlank c then start
    else inside
  | inside => if c = '.' then start else inside
  | quoted q => if c = q then inside else quoted q

/-- Whether `c` begins the operator. -/
def atOperator (c : Char) : ScanState → Bool
  | quoted _ => false
  | _ => isOperatorChar c

end ScanState

/-- The text before the operator, the text from the operator on, and where the
text in between stands. The second text is empty if there is no operator. -/
def breakAtOperator (state : ScanState) : List Char → List Char × List Char × ScanState
  | [] => ([], [], state)
  | c :: r =>
    if state.atOperator c then ([], c :: r, state)
    else
      let (before, rest, last) := breakAtOperator (state.next c) r
      (c :: before, rest, last)

@[simp] theorem breakAtOperator_nil (state : ScanState) :
    breakAtOperator state [] = ([], [], state) := rfl

/-- Nothing of the text is lost. -/
theorem breakAtOperator_append (state : ScanState) (text : List Char) :
    (breakAtOperator state text).1 ++ (breakAtOperator state text).2.1 = text := by
  induction text generalizing state with
  | nil => rfl
  | cons c r ih =>
    unfold breakAtOperator
    split
    · rfl
    · exact congrArg (c :: ·) (ih _)

end JsonSieve
