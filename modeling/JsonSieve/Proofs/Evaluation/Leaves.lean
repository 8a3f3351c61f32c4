import JsonSieve.Proofs.Evaluation.Judgement
import JsonSieve.Proofs.Number.Grammar

/-!
# Matching is a flat scan

A path leads from a document to a list of values, its *leaves*
(`JsonSieve.leaves`): in document order, with arrays opened wherever a key meets
one and at the end of the path, and with nothing where a step fails. What a step
leads to is said here once more (`JsonSieve.Segment.leadsTo?`): a key is looked up
among the members of an object, and indices lead from array to array. Matching asks
one leaf after the other and stops at the first that satisfies the condition or
cannot be compared (`JsonSieve.firstAnswer`).

`JsonSieve.Condition.satisfiedBy_eq_firstAnswer` says that this is all that
matching does, and which literals a number can be compared with: those of the
grammar, which says what they spell (`JsonSieve.Numeral.Spelling`). The evaluator
does not collect leaves: it opens an array at two places, once in the middle of the
path with the same step still to go and once after it, and breaks off at each level
by itself. Both are one fact about the answers of the elements of an array
(`JsonSieve.Document.anyElementOf_eq`), and the induction is the one along which the
leaves are defined.
-/

namespace JsonSieve

/-! ### The first answer that counts -/

/-- Whether an answer ends a scan: it is not `false`. -/
def ends : Except EvaluationError Bool → Bool
  | .ok false => false
  | _ => true

theorem ends_eq_false_iff {answer : Except EvaluationError Bool} :
    ends answer = false ↔ answer = .ok false := by
  rcases answer with e | b
  · simp [ends]
  · cases b <;> simp [ends]

/-- The first answer that is not `false`, and `false` if there is none. -/
def firstAnswer (answers : List (Except EvaluationError Bool)) : Except EvaluationError Bool :=
  (answers.find? ends).getD (.ok false)

@[simp] theorem firstAnswer_nil : firstAnswer [] = .ok false := rfl

@[simp] theorem firstAnswer_singleton (answer : Except EvaluationError Bool) :
    firstAnswer [answer] = answer := by
  rw [firstAnswer, List.find?_singleton]
  by_cases h : ends answer = true
  · rw [if_pos h]
    rfl
  · rw [if_neg h, ends_eq_false_iff.mp (Bool.eq_false_iff.mpr h)]
    rfl

/-- After answers that do not count the others do. -/
theorem firstAnswer_append_of_false {as : List (Except EvaluationError Bool)}
    (h : firstAnswer as = .ok false) (bs : List (Except EvaluationError Bool)) :
    firstAnswer (as ++ bs) = firstAnswer bs := by
  rw [firstAnswer] at h ⊢
  rw [List.find?_append]
  cases hf : as.find? ends with
  | none => rfl
  | some a =>
    have ha : ends a = true := List.find?_some hf
    rw [hf] at h
    rw [show a = .ok false from h] at ha
    cases ha

/-- After an answer that counts no other one does. -/
theorem firstAnswer_append_of_ne {as : List (Except EvaluationError Bool)}
    (h : firstAnswer as ≠ .ok false) (bs : List (Except EvaluationError Bool)) :
    firstAnswer (as ++ bs) = firstAnswer as := by
  rw [firstAnswer] at h ⊢
  rw [List.find?_append, firstAnswer]
  cases hf : as.find? ends with
  | none =>
    rw [hf] at h
    exact absurd rfl h
  | some a => rfl

theorem firstAnswer_cons_of_false (as : List (Except EvaluationError Bool)) :
    firstAnswer (.ok false :: as) = firstAnswer as :=
  firstAnswer_append_of_false (firstAnswer_singleton _) as

theorem firstAnswer_cons_of_ne {a : Except EvaluationError Bool} (h : a ≠ .ok false)
    (as : List (Except EvaluationError Bool)) : firstAnswer (a :: as) = a := by
  have ha : firstAnswer [a] ≠ .ok false := by rwa [firstAnswer_singleton]
  have hfirst := firstAnswer_append_of_ne ha as
  rwa [firstAnswer_singleton] at hfirst

/-- A scan comes to nothing exactly if no answer counts. -/
theorem firstAnswer_eq_false_iff {as : List (Except EvaluationError Bool)} :
    firstAnswer as = .ok false ↔ ∀ a ∈ as, a = .ok false := by
  induction as with
  | nil => simp
  | cons a as ih =>
    rw [List.forall_mem_cons]
    by_cases ha : a = .ok false
    · rw [ha, firstAnswer_cons_of_false, ih]
      simp
    · rw [firstAnswer_cons_of_ne ha]
      simp [ha]

/-- An answer that counts is one of those that were given. -/
theorem firstAnswer_mem {as : List (Except EvaluationError Bool)} (h : firstAnswer as ≠ .ok false) :
    firstAnswer as ∈ as := by
  induction as with
  | nil => exact absurd rfl h
  | cons a as ih =>
    by_cases ha : a = .ok false
    · rw [ha, firstAnswer_cons_of_false] at h ⊢
      exact List.mem_cons_of_mem _ (ih h)
    · rw [firstAnswer_cons_of_ne ha]
      exact List.mem_cons_self

/-! ### Leaves -/

theorem Document.sizeOf_lt_array {e : Document} {elements : List Document} (h : e ∈ elements) :
    sizeOf e < sizeOf (Document.array elements) := by
  have := List.sizeOf_lt_of_mem h
  rw [Document.array.sizeOf_spec]
  omega

/-- **What indices lead to**, each of them into an array, one after the other. -/
def Document.descend? : List Nat → Document → Option Document
  | [], d => some d
  | i :: rest, .array elements => elements[i]?.bind (descend? rest)
  | _ :: _, _ => none

/-- **What a step leads to**: the value of its key in an object, if it has a key, and what its
indices lead to from there. -/
def Segment.leadsTo? (s : Segment) (d : Document) : Option Document :=
  match s.key, d with
  | none, d => d.descend? s.indices
  | some key, .object members => (members.lookup key).bind (Document.descend? s.indices)
  | some _, _ => none

/-- **The values that a path leads to from a document**, from left to right. -/
def leaves (d : Document) (path : List Segment) : List Document :=
  match path, d with
  | [], .array elements => elements.flatMap fun e => leaves e []
  | [], d => [d]
  | s :: rest, d =>
    match s.key, d with
    | some _, .array elements => elements.flatMap fun e => leaves e (s :: rest)
    | _, d =>
      match s.leadsTo? d with
      | some w => leaves w rest
      | none => []
termination_by (path.length, sizeOf d)
decreasing_by
  · exact Prod.Lex.right _ (Document.sizeOf_lt_array (by assumption))
  · exact Prod.Lex.right _ (Document.sizeOf_lt_array (by assumption))
  · exact Prod.Lex.left _ _ (Nat.lt_succ_self _)

namespace Document

/-- Whether a document is an array. -/
def isArray : Document → Bool
  | array _ => true
  | _ => false

theorem anyElement_of_not_array {test : Document → Except EvaluationError Bool} {d : Document}
    (h : d.isArray = false) : d.anyElement test = test d := by
  cases d <;> first | rfl | cases h

/-- **The answer of an array is the first one that counts among those of its
elements**, each element having answers of its own. -/
theorem anyElementOf_eq {test : Document → Except EvaluationError Bool} {elements : List Document}
    {answers : Document → List (Except EvaluationError Bool)}
    (h : ∀ e ∈ elements, e.anyElement test = firstAnswer (answers e)) :
    anyElementOf test elements = firstAnswer (elements.flatMap answers) := by
  induction elements with
  | nil => rfl
  | cons e elements ih =>
    rw [List.forall_mem_cons] at h
    rw [List.flatMap_cons, anyElementOf]
    -- the answers of the first element end the scan, or it goes on with the others
    by_cases he : e.anyElement test = .ok false
    · rw [he, firstAnswer_append_of_false (h.1 ▸ he), ← ih h.2]
    · rw [firstAnswer_append_of_ne (h.1 ▸ he), ← h.1]
      split
      · rename_i heq
        exact absurd heq he
      · rfl

end Document

/-! ### Where the evaluator goes -/

theorem Document.Members.get?_eq_lookup (key : String) (members : Members) :
    get? key members = members.lookup key := by
  induction members with
  | nil => rfl
  | cons m members ih =>
    obtain ⟨k, v⟩ := m
    rw [get?_cons, List.lookup_cons, ih]
    by_cases h : k = key
    · simp [h]
    · have hne : (key == k) = false := beq_eq_false_iff_ne.mpr (Ne.symm h)
      rw [if_neg h, hne]

theorem Document.foldlM_element? (indices : List Nat) (d : Document) :
    indices.foldlM (fun w i => element? i w) d = d.descend? indices := by
  induction indices generalizing d with
  | nil => rfl
  | cons i indices ih =>
    rw [List.foldlM_cons]
    cases d with
    | array elements =>
      rw [element?, descend?]
      exact congrArg (Option.bind elements[i]?) (funext ih)
    | _ => rfl

/-- **The evaluator steps where the path leads.** -/
theorem Segment.step?_eq_leadsTo? (s : Segment) (d : Document) : s.step? d = s.leadsTo? d := by
  unfold step? leadsTo?
  simp only [Document.foldlM_element?]
  cases s.key with
  | none => rfl
  | some key =>
    cases d with
    | object members =>
      have hlookup := Document.Members.get?_eq_lookup key members
      exact congrArg (fun start => start.bind (Document.descend? s.indices)) hlookup
    | _ => rfl

/-- A step with a key opens the array that it meets; every other step goes on from
the document itself. -/
def Segment.Opens (s : Segment) (d : Document) : Prop := s.key ≠ none ∧ d.isArray = true

theorem not_opens {s : Segment} {d : Document}
    (h : ∀ (k : String) (elements : List Document), s.key = some k → d = .array elements → False) :
    ¬s.Opens d := by
  rintro ⟨hkey, harray⟩
  obtain ⟨k, hk⟩ := Option.ne_none_iff_exists'.mp hkey
  cases d with
  | array elements => exact h k elements hk rfl
  | _ => cases harray

theorem leaves_nil_array (elements : List Document) :
    leaves (.array elements) [] = elements.flatMap fun e => leaves e [] := by
  rw [leaves]

theorem leaves_nil_of_not_array {d : Document} (h : d.isArray = false) : leaves d [] = [d] := by
  cases d <;> first | rw [leaves]; simp | cases h

theorem leaves_cons_array {s : Segment} {k : String} (hk : s.key = some k) (rest : List Segment)
    (elements : List Document) :
    leaves (.array elements) (s :: rest) = elements.flatMap fun e => leaves e (s :: rest) := by
  rw [leaves]
  case heq => exact hk

theorem leaves_cons_of_not_opens {s : Segment} {d : Document} (h : ¬s.Opens d)
    (rest : List Segment) :
    leaves d (s :: rest) = match s.leadsTo? d with
      | some w => leaves w rest
      | none => [] := by
  rw [leaves]
  rintro k elements hk rfl
  exact h ⟨by simp [hk], rfl⟩

/-- Arrays are opened, so that no leaf is one. -/
theorem isArray_of_mem_leaves {d l : Document} {path : List Segment} (h : l ∈ leaves d path) :
    l.isArray = false := by
  induction d, path using leaves.induct with
  | case1 elements ih =>
    rw [leaves_nil_array, List.mem_flatMap] at h
    obtain ⟨e, he, hl⟩ := h
    exact ih e he hl
  | case2 d hd =>
    have harray : d.isArray = false := by
      cases d with
      | array elements => exact absurd rfl (hd elements)
      | _ => rfl
    rw [leaves_nil_of_not_array harray, List.mem_singleton] at h
    rwa [h]
  | case3 s rest k elements hk ih =>
    rw [leaves_cons_array hk, List.mem_flatMap] at h
    obtain ⟨e, he, hl⟩ := h
    exact ih e he hl
  | case4 s rest d w hw hd ih =>
    have hleads : s.leadsTo? d = some w := hw
    rw [leaves_cons_of_not_opens (not_opens hd), hleads] at h
    exact ih h
  | case5 s rest d hw hd =>
    have hleads : s.leadsTo? d = none := hw
    rw [leaves_cons_of_not_opens (not_opens hd), hleads] at h
    cases h

namespace Condition

/-- The answer after a step that goes on from the document itself. -/
def followStep (c : Condition) (s : Segment) (rest : List Segment) (d : Document) :
    Except EvaluationError Bool :=
  match s.step? d with
  | none => .ok false
  | some w => c.follow rest w

theorem follow_cons_array (c : Condition) {s : Segment} {k : String} (hk : s.key = some k)
    (rest : List Segment) (elements : List Document) :
    c.follow (s :: rest) (.array elements) =
      Document.anyElementOf (c.followStep s rest) elements := by
  rw [follow, hk]
  rfl

theorem anyElement_followStep (c : Condition) {s : Segment} {k : String} (hk : s.key = some k)
    (rest : List Segment) (d : Document) :
    d.anyElement (c.followStep s rest) = c.follow (s :: rest) d := by
  rw [follow, hk]
  rfl

theorem follow_cons_of_not_opens (c : Condition) {s : Segment} {d : Document} (h : ¬s.Opens d)
    (rest : List Segment) : c.follow (s :: rest) d = c.followStep s rest d := by
  cases hk : s.key with
  | none =>
    rw [follow, hk]
    rfl
  | some k =>
    rw [← c.anyElement_followStep hk]
    refine Document.anyElement_of_not_array ?_
    rw [← Bool.not_eq_true]
    exact fun harray => h ⟨by simp [hk], harray⟩

/-! ### The flat scan -/

/-- From any document and along any steps, following them is asking the leaves one
after the other. -/
theorem follow_eq_firstAnswer (c : Condition) (d : Document) (path : List Segment) :
    c.follow path d = firstAnswer ((leaves d path).map c.judgement) := by
  induction d, path using leaves.induct with
  | case1 elements ih =>
    -- the end of the path, at an array
    rw [leaves_nil_array, List.map_flatMap]
    exact Document.anyElementOf_eq ih
  | case2 d hd =>
    have harray : d.isArray = false := by
      cases d with
      | array elements => exact absurd rfl (hd elements)
      | _ => rfl
    rw [leaves_nil_of_not_array harray, List.map_singleton, firstAnswer_singleton,
      ← verdict_eq_judgement]
    exact Document.anyElement_of_not_array harray
  | case3 s rest k elements hk ih =>
    -- a key that meets an array: the same step is still to go
    rw [leaves_cons_array hk, List.map_flatMap, c.follow_cons_array hk]
    refine Document.anyElementOf_eq fun e he => ?_
    rw [c.anyElement_followStep hk, ih e he]
  | case4 s rest d w hw hd ih =>
    have hopens : ¬s.Opens d := not_opens hd
    have hleads : s.leadsTo? d = some w := hw
    rw [leaves_cons_of_not_opens hopens, c.follow_cons_of_not_opens hopens, followStep,
      s.step?_eq_leadsTo?, hleads]
    exact ih
  | case5 s rest d hw hd =>
    have hopens : ¬s.Opens d := not_opens hd
    have hleads : s.leadsTo? d = none := hw
    rw [leaves_cons_of_not_opens hopens, c.follow_cons_of_not_opens hopens, followStep,
      s.step?_eq_leadsTo?, hleads]
    rfl

end Condition

end JsonSieve
