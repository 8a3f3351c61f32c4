import JsonSieve.Condition.PathParser

/-!
# Reading conditions

A condition is a path, an operator and a literal, with blanks wherever they
meet. The operator is found first, so an unknown operator is reported before
anything that is wrong with the path; of the operators that begin there, the
longest one is taken. The literal is everything after it, without one pair of
quotation marks around it.
-/

namespace JsonSieve

/-- A text without one pair of equal quotation marks around it, if it has
them. -/
def unquote : List Char → List Char
  | [] => []
  | q :: r => if isQuote q ∧ r.getLast? = some q then r.dropLast else q :: r

namespace Condition

/-- Reads the condition whose operator begins the text `rest` and whose path is
`before`. -/
def ofParts (before rest : List Char) : Except ConditionError Condition :=
  match Operator.longest? rest with
  | none => .error (.unknownOperator (String.ofList (rest.takeWhile isOperatorChar)))
  | some operator =>
    let path := Text.trim before
    if path.isEmpty then .error (.emptyPath operator)
    else do
      let segments ← parseSegments path
      let value := unquote (Text.trim (rest.drop operator.chars.length))
      return ⟨⟨String.ofList path, segments⟩, operator, String.ofList value⟩

/-- Reads a condition. -/
def ofChars (text : List Char) : Except ConditionError Condition :=
  let text := Text.trim text
  if text.isEmpty then .error .emptyExpression
  else
    match breakAtOperator .start text with
    | (_, [], .quoted q) => .error (.unterminatedQuote q)
    | (_, [], _) => .error (.noOperator (String.ofList text))
    | (before, rest, _) => ofParts before rest

/-- Reads a condition. -/
def parse (text : String) : Except ConditionError Condition := ofChars text.toList

end Condition

end JsonSieve
