import Mathlib.Data.List.Basic
import JsonSieve.Proofs.Evaluation.Leaves

/-!
# Where steps lead

The leaves of a document come about in two ways: steps lead to values, and arrays at the end
of the path are opened. Here the first of the two is by itself. A step leads from a document to
a list of values (`JsonSieve.Segment.targets`), and the steps of a path, taken one after the
other, lead to the values where the path stops, whether these are arrays or not
(`JsonSieve.stops`).

So paths can be cut anywhere: the leaves of a path are those of its second part, from all the
values where its first part stops (`JsonSieve.leaves_append`).
-/

namespace JsonSieve

/-- **What holds of an array if it holds of its elements, and of everything else, holds of all
documents.** -/
theorem Document.arrays_induction {motive : Document → Prop}
    (opened : ∀ elements, (∀ e ∈ elements, motive e) → motive (.array elements))
    (closed : ∀ d, d.isArray = false → motive d) (d : Document) : motive d :=
  match d with
  | array elements => opened elements fun e _ => arrays_induction opened closed e
  | null => closed _ rfl
  | bool _ => closed _ rfl
  | number _ => closed _ rfl
  | string _ => closed _ rfl
  | object _ => closed _ rfl
termination_by sizeOf d
decreasing_by exact sizeOf_lt_array (by assumption)

/-! ### One step -/

/-- **The values that a step leads to from a document**: a step with a key that meets an array
is taken from each of its elements, and every other step from the document itself. -/
def Segment.targets (s : Segment) (d : Document) : List Document :=
  match s.key, d with
  | some _, .array elements => elements.flatMap fun e => s.targets e
  | _, d => (s.leadsTo? d).toList
termination_by sizeOf d
decreasing_by exact Document.sizeOf_lt_array (by assumption)

namespace Segment

variable {s : Segment}

theorem targets_array {k : String} (hk : s.key = some k) (elements : List Document) :
    s.targets (.array elements) = elements.flatMap s.targets := by
  rw [targets]
  case heq => exact hk

theorem targets_of_not_opens {d : Document} (h : ¬s.Opens d) :
    s.targets d = (s.leadsTo? d).toList := by
  rw [targets]
  rintro k elements hk rfl
  exact h ⟨by simp [hk], rfl⟩

/-- **A step is taken from a document at once, or from the elements of an array.** -/
theorem targets_induction (s : Segment) {motive : Document → Prop}
    (opened : ∀ k elements, s.key = some k → (∀ e ∈ elements, motive e) →
      motive (.array elements))
    (taken : ∀ d, ¬s.Opens d → motive d) (d : Document) : motive d := by
  induction d using Document.arrays_induction with
  | opened elements ih =>
    cases hk : s.key with
    | none => exact taken _ fun h => h.1 hk
    | some k => exact opened k elements hk ih
  | closed d hd => exact taken d fun h => Bool.false_ne_true (hd.symm.trans h.2)

end Segment

/-- The leaves after a step are the leaves of the values that it leads to. -/
theorem leaves_cons (s : Segment) (rest : List Segment) (d : Document) :
    leaves d (s :: rest) = (s.targets d).flatMap fun w => leaves w rest := by
  induction d using Segment.targets_induction s with
  | opened k elements hk ih =>
    rw [leaves_cons_array hk, Segment.targets_array hk, List.flatMap_assoc]
    exact List.flatMap_congr ih
  | taken d hd =>
    rw [leaves_cons_of_not_opens hd, Segment.targets_of_not_opens hd]
    cases s.leadsTo? d with
    | none => rfl
    | some w => exact (List.flatMap_singleton _ _).symm

/-! ### Paths -/

/-- **The values where the steps from a document stop.** Arrays at the end are not opened. -/
def stops (d : Document) : List Segment → List Document
  | [] => [d]
  | s :: rest => (s.targets d).flatMap fun w => stops w rest

theorem stops_singleton (d : Document) (s : Segment) : stops d [s] = s.targets d := by
  simp [stops]

theorem stops_append (d : Document) (path rest : List Segment) :
    stops d (path ++ rest) = (stops d path).flatMap fun w => stops w rest := by
  induction path generalizing d with
  | nil => exact (List.flatMap_singleton _ _).symm
  | cons s path ih =>
    rw [List.cons_append, stops, stops, List.flatMap_assoc]
    exact List.flatMap_congr fun w _ => ih w

/-- **A path may be cut anywhere.** -/
theorem leaves_append (d : Document) (path rest : List Segment) :
    leaves d (path ++ rest) = (stops d path).flatMap fun w => leaves w rest := by
  induction path generalizing d with
  | nil => exact (List.flatMap_singleton _ _).symm
  | cons s path ih =>
    rw [List.cons_append, leaves_cons, stops, List.flatMap_assoc]
    exact List.flatMap_congr fun w _ => ih w

end JsonSieve
