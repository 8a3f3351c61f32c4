import JsonSieve.Document.Reader
import JsonSieve.Evaluation.Verdict

/-!
# Matching documents

A condition is matched against the values that its path leads to, from left to
right, until one satisfies it or cannot be compared; the values after that one
do not count. A step with a key that meets an array goes on from each of its
elements, and so does the end of the path (`Document.anyElement`). A step that
leads nowhere leads to no value.

## Main declarations

* `JsonSieve.Condition.satisfiedBy` – a condition against a document;
* `JsonSieve.Condition.evaluate` – a condition against the bytes of one.
-/

namespace JsonSieve

namespace Document

mutual

/-- The test of a document that is no array; of an array, the first answer of an
element, however deep, that is not `false`. -/
def anyElement (test : Document → Except EvaluationError Bool) :
    Document → Except EvaluationError Bool
  | array elements => anyElementOf test elements
  | null => test null
  | bool b => test (bool b)
  | number n => test (number n)
  | string s => test (string s)
  | object members => test (object members)

/-- The first answer of one of some documents that is not `false`. -/
def anyElementOf (test : Document → Except EvaluationError Bool) :
    List Document → Except EvaluationError Bool
  | [] => .ok false
  | d :: rest =>
    match d.anyElement test with
    | .ok false => anyElementOf test rest
    | answer => answer

end

end Document

/-- Where a step leads, if it leads anywhere. -/
def Segment.step? (s : Segment) (d : Document) : Option Document := do
  let start ← match s.key with
    | none => some d
    | some key => d.member? key
  s.indices.foldlM (fun d i => d.element? i) start

namespace Condition

/-- The answer for what the steps lead to from a document. -/
def follow (c : Condition) : List Segment → Document → Except EvaluationError Bool
  | [], d => d.anyElement c.verdict
  | s :: rest, d =>
    let next (d : Document) : Except EvaluationError Bool :=
      match s.step? d with
      | none => .ok false
      | some d => c.follow rest d
    match s.key with
    | none => next d
    | some _ => d.anyElement next

/-- Whether a document satisfies a condition. -/
def satisfiedBy (c : Condition) (d : Document) : Except EvaluationError Bool :=
  c.follow c.path.segments d

end Condition

/-- The answer for a document that has been read. -/
structure Evaluation where
  /-- The document. -/
  document : Document
  /-- Whether it satisfies the condition. -/
  matched : Bool

/-- Reads one document and matches a condition against it. -/
def Condition.evaluate (c : Condition) (input : List UInt8) : Except EvaluationError Evaluation :=
  match Document.parse input with
  | .error e => .error (.unreadable e)
  | .ok d =>
    match c.satisfiedBy d with
    | .error e => .error e
    | .ok matched => .ok ⟨d, matched⟩

end JsonSieve
