import JsonSieve.Proofs.Evaluation.Stops

/-!
# A step without an index

A path that comes to arrays and goes on with a key, or ends, goes on from all of their elements.
So it answers as all the paths together that have one more index at this place
(`JsonSieve.answer_of_indices`): it says no if all of them do, and otherwise one of them has
the same answer.

It is not always the first of them. If a path comes to several arrays, it goes through them
one after the other, and the path with the index `i` through the `i`-th elements of all of them:
the former reads a table by rows, the latter a column of it. What is common to both orders is
that a column is scanned from the top. So if the first answer that counts is in row `r` and
column `i`, then nothing counts above it in that column, since nothing counts in the rows above
(`JsonSieve.exists_column`). Of a single row the first column that counts decides
(`JsonSieve.exists_first_element`).
-/

namespace JsonSieve

/-! ### Answers and the path that they quote -/

/-- An answer, quoting another path if it is an error that quotes one. -/
def quoting (written : String) : Except EvaluationError Bool → Except EvaluationError Bool
  | .error (.comparedObject _) => .error (.comparedObject written)
  | answer => answer

theorem quoting_eq_false_iff {written : String} {answer : Except EvaluationError Bool} :
    quoting written answer = .ok false ↔ answer = .ok false := by
  rcases answer with e | b
  · cases e <;> simp [quoting]
  · rfl

theorem firstAnswer_map_quoting (written : String) (answers : List (Except EvaluationError Bool)) :
    firstAnswer (answers.map (quoting written)) = quoting written (firstAnswer answers) := by
  induction answers with
  | nil => rfl
  | cons a answers ih =>
    rw [List.map_cons]
    by_cases ha : a = .ok false
    · rw [ha, firstAnswer_cons_of_false, ← ih]
      exact firstAnswer_cons_of_false _
    · rw [firstAnswer_cons_of_ne ha, firstAnswer_cons_of_ne (mt quoting_eq_false_iff.mp ha)]

/-- Conditions that differ in the path only judge alike, but for the path that they quote. -/
theorem judgement_eq_quoting (p q : Path) (op : Operator) (literal : String) (l : Document) :
    Condition.judgement ⟨q, op, literal⟩ l =
      quoting q.written (Condition.judgement ⟨p, op, literal⟩ l) := by
  have hanswer (kind : Kind) (o : Option Bool) : Condition.answer ⟨q, op, literal⟩ kind o =
      quoting q.written (Condition.answer ⟨p, op, literal⟩ kind o) := by
    cases o <;> rfl
  cases l with
  | null => rfl
  | array elements => rfl
  | object members => rfl
  | string s => exact hanswer _ _
  | number n =>
    unfold Condition.judgement
    cases Binary64.ofChars? literal.toList with
    | none => rfl
    | some y => exact hanswer _ _
  | bool b =>
    unfold Condition.judgement
    cases booleanSpellings.lookup literal with
    | none => rfl
    | some y => exact hanswer _ _

/-! ### Rows and columns -/

section Tables

variable {α : Type} (answers : α → List (Except EvaluationError Bool))

/-- The elements with an index, one of each row that is long enough. -/
def column (rows : List (List α)) (i : Nat) : List α := rows.filterMap fun row => row[i]?

theorem column_cons (row : List α) (rows : List (List α)) (i : Nat) :
    column (row :: rows) i = row[i]?.toList ++ column rows i := by
  rw [column, List.filterMap_cons]
  cases row[i]? <;> rfl

theorem mem_column_iff {rows : List (List α)} {i : Nat} {x : α} :
    x ∈ column rows i ↔ ∃ row ∈ rows, row[i]? = some x := List.mem_filterMap

/-- **All that a table holds is in one of its columns.** -/
theorem firstAnswer_rows_eq_false_iff {rows : List (List α)} :
    firstAnswer (rows.flatten.flatMap answers) = .ok false ↔
      ∀ i, firstAnswer ((column rows i).flatMap answers) = .ok false := by
  simp only [firstAnswer_eq_false_iff, List.forall_mem_flatMap, mem_column_iff, List.mem_flatten]
  constructor
  · rintro h i x ⟨row, hrow, hx⟩
    exact h x ⟨row, hrow, List.mem_of_getElem? hx⟩
  · rintro h x ⟨row, hrow, hx⟩
    obtain ⟨i, hi⟩ := List.mem_iff_getElem?.mp hx
    exact h i x ⟨row, hrow, hi⟩

/-- **Of a row the first element that counts decides.** -/
theorem exists_first_element {row : List α} (h : firstAnswer (row.flatMap answers) ≠ .ok false) :
    ∃ (i : Nat) (x : α), row[i]? = some x ∧
      firstAnswer (answers x) = firstAnswer (row.flatMap answers) ∧
      ∀ j < i, ∀ y, row[j]? = some y → firstAnswer (answers y) = .ok false := by
  induction row with
  | nil => exact absurd rfl h
  | cons x row ih =>
    rw [List.flatMap_cons] at h ⊢
    by_cases hx : firstAnswer (answers x) = .ok false
    · rw [firstAnswer_append_of_false hx] at h ⊢
      obtain ⟨i, y, hy, hanswer, hbefore⟩ := ih h
      refine ⟨i + 1, y, hy, hanswer, fun j hj z hz => ?_⟩
      cases j with
      | zero =>
        obtain rfl : x = z := Option.some.inj hz
        exact hx
      | succ j => exact hbefore j (Nat.lt_of_succ_lt_succ hj) z hz
    · refine ⟨0, x, rfl, (firstAnswer_append_of_ne hx _).symm, fun j hj => ?_⟩
      exact absurd hj (Nat.not_lt_zero j)

/-- **The first answer of a table is the first one of a column.** -/
theorem exists_column {rows : List (List α)}
    (h : firstAnswer (rows.flatten.flatMap answers) ≠ .ok false) :
    ∃ i, (∃ row ∈ rows, i < row.length) ∧
      firstAnswer ((column rows i).flatMap answers) =
        firstAnswer (rows.flatten.flatMap answers) := by
  induction rows with
  | nil => exact absurd rfl h
  | cons row rows ih =>
    rw [List.flatten_cons, List.flatMap_append] at h ⊢
    simp only [column_cons, List.flatMap_append]
    by_cases hrow : firstAnswer (row.flatMap answers) = .ok false
    · -- nothing counts in this row, and so nothing at the top of a column
      rw [firstAnswer_append_of_false hrow] at h ⊢
      obtain ⟨i, ⟨row', hrow', hi⟩, hcolumn⟩ := ih h
      refine ⟨i, ⟨row', List.mem_cons_of_mem _ hrow', hi⟩, ?_⟩
      rw [firstAnswer_append_of_false, hcolumn]
      rw [firstAnswer_eq_false_iff, List.forall_mem_flatMap] at hrow ⊢
      intro x hx
      exact hrow x (List.mem_of_getElem? (Option.mem_toList.mp hx))
    · -- the column of the element that decides the row begins with it
      rw [firstAnswer_append_of_ne hrow]
      obtain ⟨i, x, hx, hanswer, -⟩ := exists_first_element answers hrow
      refine ⟨i, ⟨row, List.mem_cons_self, (List.getElem?_eq_some_iff.mp hx).1⟩, ?_⟩
      have htop : firstAnswer (row[i]?.toList.flatMap answers) =
          firstAnswer (row.flatMap answers) := by
        rw [hx, ← hanswer]
        exact congrArg firstAnswer (List.append_nil _)
      rw [firstAnswer_append_of_ne (htop ▸ hrow), htop]

end Tables

/-! ### One more index -/

/-- A step with one more index. -/
def Segment.at (s : Segment) (i : Nat) : Segment := ⟨s.key, s.indices ++ [i]⟩

theorem Document.descend?_array (elements : List Document) (i : Nat) :
    (array elements).descend? [i] = elements[i]? := by
  rw [descend?]
  cases elements[i]? <;> rfl

theorem Document.descend?_append (d : Document) (indices more : List Nat) :
    d.descend? (indices ++ more) = (d.descend? indices).bind (descend? more) := by
  induction indices generalizing d with
  | nil => rfl
  | cons i indices ih =>
    cases d with
    | array elements =>
      rw [List.cons_append, descend?, descend?, Option.bind_assoc]
      exact congrArg (Option.bind elements[i]?) (funext ih)
    | _ => rfl

theorem Segment.leadsTo?_at (s : Segment) (i : Nat) (d : Document) :
    (s.at i).leadsTo? d = (s.leadsTo? d).bind (Document.descend? [i]) := by
  obtain ⟨key, indices⟩ := s
  cases key with
  | none => exact d.descend?_append indices [i]
  | some key =>
    cases d with
    | object members =>
      refine Eq.trans ?_ (Option.bind_assoc _ _ _).symm
      exact congrArg (Option.bind (members.lookup key))
        (funext fun w => w.descend?_append indices [i])
    | _ => rfl

/-- The values that the step leads to are taken apart by their elements. -/
theorem Segment.targets_at (s : Segment) (i : Nat) (d : Document) :
    (s.at i).targets d = (s.targets d).filterMap (Document.descend? [i]) := by
  induction d using Segment.targets_induction s with
  | opened k elements hk ih =>
    have hk' : (s.at i).key = some k := hk
    rw [targets_array hk, targets_array hk', List.filterMap_flatMap]
    exact List.flatMap_congr ih
  | taken d hd =>
    have hd' : ¬(s.at i).Opens d := hd
    rw [targets_of_not_opens hd, targets_of_not_opens hd', leadsTo?_at]
    cases s.leadsTo? d with
    | none => rfl
    | some w =>
      rw [Option.bind_some, Option.toList_some, List.filterMap_cons, List.filterMap_nil]
      cases w.descend? [i] <;> rfl

/-- The elements of an array are gone through where a path ends or goes on with a key. -/
theorem leaves_array {path : List Segment} (h : ∀ r ∈ path.head?, r.key ≠ none)
    (elements : List Document) :
    leaves (.array elements) path = elements.flatMap fun e => leaves e path := by
  cases path with
  | nil => exact leaves_nil_array elements
  | cons r rest =>
    obtain ⟨k, hk⟩ := Option.ne_none_iff_exists'.mp (h r rfl)
    exact leaves_cons_array hk rest elements

theorem exists_rows {ws : List Document} (h : ∀ w ∈ ws, w.isArray = true) :
    ∃ rows : List (List Document), ws = rows.map .array := by
  induction ws with
  | nil => exact ⟨[], rfl⟩
  | cons w ws ih =>
    rw [List.forall_mem_cons] at h
    obtain ⟨rows, rfl⟩ := ih h.2
    cases w with
    | array elements => exact ⟨elements :: rows, rfl⟩
    | _ => cases h.1

section Paths

variable {d : Document} {before after : List Segment} {s : Segment} {rows : List (List Document)}

/-- Without the index a path goes on from everything in the table, -/
theorem leaves_of_rows (hafter : ∀ r ∈ after.head?, r.key ≠ none)
    (hrows : stops d (before ++ [s]) = rows.map .array) :
    leaves d (before ++ s :: after) = rows.flatten.flatMap fun e => leaves e after := by
  rw [← List.singleton_append, ← List.append_assoc, leaves_append, hrows, List.flatMap_map,
    List.flatten_eq_flatMap, List.flatMap_assoc]
  exact List.flatMap_congr fun elements _ => leaves_array hafter elements

/-- and with it from one column. -/
theorem leaves_of_column (hrows : stops d (before ++ [s]) = rows.map .array) (i : Nat) :
    leaves d (before ++ s.at i :: after) = (column rows i).flatMap fun e => leaves e after := by
  have hstops : stops d (before ++ [s.at i]) = column rows i := by
    calc stops d (before ++ [s.at i])
        = (stops d (before ++ [s])).filterMap (Document.descend? [i]) := by
          simp only [stops_append, stops_singleton, Segment.targets_at, List.filterMap_flatMap]
      _ = column rows i := by
          rw [hrows, List.filterMap_map]
          exact List.filterMap_congr fun row _ => Document.descend?_array row i
  rw [← List.singleton_append, ← List.append_assoc, leaves_append, hstops]

end Paths

/-- From an object a step leads to one value at most. -/
theorem rows_of_object {members : Document.Members} {s : Segment} {rows : List (List Document)}
    (hrows : stops (.object members) ([] ++ [s]) = rows.map .array) :
    rows = [] ∨ ∃ row, rows = [row] := by
  have hopens : ¬s.Opens (.object members) := fun h => Bool.noConfusion h.2
  rw [List.nil_append, stops_singleton, Segment.targets_of_not_opens hopens] at hrows
  have hlength := congrArg List.length hrows
  rw [List.length_map] at hlength
  cases hleads : s.leadsTo? (.object members) with
  | none =>
    rw [hleads] at hlength
    exact Or.inl (List.eq_nil_of_length_eq_zero hlength.symm)
  | some w =>
    rw [hleads] at hlength
    exact Or.inr (List.length_eq_one_iff.mp hlength.symm)

/-- **A step without an index is all steps with one more index together**, where the former
leads to arrays only and the path ends there or goes on with a key. The path without the index
says no exactly if all those with it do. Otherwise one of them, whose index some array has, has
the same answer, quoting its own path if it quotes one; and it is the first one that does not say
no if this is the first step and the document is an object. -/
theorem answer_of_indices (op : Operator) (literal written : String) (writtenAt : Nat → String)
    (before : List Segment) (s : Segment) (after : List Segment) (d : Document)
    (hafter : ∀ r ∈ after.head?, r.key ≠ none)
    (harrays : ∀ w ∈ stops d (before ++ [s]), w.isArray = true) :
    let answer := Condition.satisfiedBy ⟨⟨written, before ++ s :: after⟩, op, literal⟩ d
    let answerAt (i : Nat) :=
      Condition.satisfiedBy ⟨⟨writtenAt i, before ++ s.at i :: after⟩, op, literal⟩ d
    (answer = .ok false ↔ ∀ i, answerAt i = .ok false) ∧
    (answer ≠ .ok false → ∃ i,
      (∃ elements, .array elements ∈ stops d (before ++ [s]) ∧ i < elements.length) ∧
      answerAt i = quoting (writtenAt i) answer) ∧
    (before = [] → (∃ members, d = .object members) → answer ≠ .ok false → ∃ i,
      answerAt i = quoting (writtenAt i) answer ∧ ∀ j < i, answerAt j = .ok false) := by
  obtain ⟨rows, hrows⟩ := exists_rows harrays
  intro answer answerAt
  let answers (e : Document) := (leaves e after).map
    (Condition.judgement ⟨⟨written, before ++ s :: after⟩, op, literal⟩)
  have hanswer : answer = firstAnswer (rows.flatten.flatMap answers) := by
    rw [← List.map_flatMap, ← leaves_of_rows hafter hrows]
    exact Condition.follow_eq_firstAnswer _ d _
  have hanswerAt (i : Nat) :
      answerAt i = quoting (writtenAt i) (firstAnswer ((column rows i).flatMap answers)) := by
    rw [← firstAnswer_map_quoting, ← List.map_flatMap, List.map_map, ← leaves_of_column hrows]
    refine (Condition.follow_eq_firstAnswer _ d _).trans (congrArg firstAnswer ?_)
    exact List.map_congr_left fun l _ => judgement_eq_quoting _ _ op literal l
  simp only [hanswerAt, quoting_eq_false_iff]
  rw [hanswer]
  refine ⟨firstAnswer_rows_eq_false_iff answers, fun h => ?_, ?_⟩
  · obtain ⟨i, ⟨row, hrow, hi⟩, hcolumn⟩ := exists_column answers h
    exact ⟨i, ⟨row, hrows ▸ List.mem_map_of_mem hrow, hi⟩, by rw [hcolumn]⟩
  · rintro rfl ⟨members, rfl⟩ h
    rcases rows_of_object hrows with rfl | ⟨row, rfl⟩
    · exact absurd rfl h
    · -- of one row a column has the element with its index
      have hcolumn (i : Nat) : column [row] i = row[i]?.toList := by
        rw [column_cons]
        exact List.append_nil _
      rw [List.flatten_singleton] at h ⊢
      obtain ⟨i, x, hx, hfirst, hbefore⟩ := exists_first_element answers h
      refine ⟨i, ?_, fun j hj => ?_⟩
      · rw [hcolumn, hx, ← hfirst]
        exact congrArg _ (congrArg firstAnswer (List.append_nil _))
      · rw [hcolumn]
        cases hy : row[j]? with
        | none => rfl
        | some y =>
          exact (congrArg firstAnswer (List.append_nil _)).trans (hbefore j hj y hy)

/-- A step with a key and without an index. -/
def keyed (key : String) : Segment := ⟨some key, []⟩

/-- A document whose member `m` has elements with these values as their members `v`. -/
def rowOf (vs : List Document) : Document :=
  .object [("m", .array (vs.map fun v => .object [("v", v)]))]

/-- A document whose member `x` has two such rows as its elements. -/
def twoRows : Document :=
  .object [("x", .array [rowOf [.string "a", .string "b"], rowOf [.object []]])]

/-- The answer for what steps lead to being `b`. -/
def isB (written : String) (steps : List Segment) (d : Document) : Except EvaluationError Bool :=
  Condition.satisfiedBy ⟨⟨written, steps⟩, .equal, "b"⟩ d

/-- Of two rows the first one decides at its second element, so that some column has the same
answer, but not the first one, which has an object in it. Of one row the first element that
counts decides. -/
theorem answer_of_indices_rows :
    (isB "x.m.v" [keyed "x", keyed "m", keyed "v"] twoRows = .ok true ∧
      isB "x.m[0].v" [keyed "x", (keyed "m").at 0, keyed "v"] twoRows =
        .error (.comparedObject "x.m[0].v") ∧
      ∃ i, isB "x.m[i].v" [keyed "x", (keyed "m").at i, keyed "v"] twoRows = .ok true) ∧
    ∃ i, isB "m[i].v" [(keyed "m").at i, keyed "v"]
        (rowOf [.string "a", .object [], .string "b"]) = .error (.comparedObject "m[i].v") ∧
      ∀ j < i, isB "m[i].v" [(keyed "m").at j, keyed "v"]
        (rowOf [.string "a", .object [], .string "b"]) = .ok false := by
  have hafter : ∀ r ∈ [keyed "v"].head?, r.key ≠ none := by simp [keyed]
  have htwo : ∀ w ∈ stops twoRows ([keyed "x"] ++ [keyed "m"]), w.isArray = true := by
    simp [stops, Segment.targets, keyed, twoRows, rowOf, Segment.leadsTo?, Document.descend?,
      Document.isArray]
  have hone : ∀ w ∈ stops (rowOf [.string "a", .object [], .string "b"]) ([] ++ [keyed "m"]),
      w.isArray = true := by
    simp [stops, Segment.targets, keyed, rowOf, Segment.leadsTo?, Document.descend?,
      Document.isArray]
  have htwoEnds : isB "x.m.v" [keyed "x", keyed "m", keyed "v"] twoRows ≠ .ok false := by
    decide +kernel
  have honeEnds : isB "m.v" [keyed "m", keyed "v"]
      (rowOf [.string "a", .object [], .string "b"]) ≠ .ok false := by decide +kernel
  refine ⟨⟨rfl, rfl, ?_⟩, ?_⟩
  · obtain ⟨i, -, hi⟩ := (answer_of_indices .equal "b" "x.m.v" (fun _ => "x.m[i].v") _ _ _ _
      hafter htwo).2.1 htwoEnds
    exact ⟨i, hi⟩
  · exact (answer_of_indices .equal "b" "m.v" (fun _ => "m[i].v") _ _ _ _ hafter hone).2.2 rfl
      ⟨_, rfl⟩ honeEnds

end JsonSieve
