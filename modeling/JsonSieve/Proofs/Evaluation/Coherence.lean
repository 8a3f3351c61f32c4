import Mathlib.Data.List.Basic
import JsonSieve.Proofs.Binary64.Exact
import JsonSieve.Proofs.Evaluation.Leaves

/-!
# All operators at once

For one path and one literal a document has eight answers, one to each operator
(`JsonSieve.answerTo`), and they hang together (`JsonSieve.answers_coherent`): what allows
for equality answers as what does not and equality together, what is not equal is unequal,
what is neither below, at nor above the literal is not there at all, and the reserved
operators are never satisfied.

For a single value these are laws of the orders, and there are four ways only in which a
value can answer the eight operators (`JsonSieve.Conduct`). What a document adds is that
each of the eight scans breaks off by itself. The scan for one operator may end with a match
before a leaf at which the scan for another one fails. So a law of values is carried over
to documents by following both scans at the same time, up to the leaf at which the first of
them ends.
-/

namespace JsonSieve

/-! ### One value -/

namespace Operator

/-- What an operator asks of a value, given whether it is below the literal, at it and
above it. -/
def onOrder? (below same above : Bool) : Operator → Option Bool
  | equal => some same
  | notEqual => some !same
  | less => some below
  | lessOrEqual => some (below || same)
  | greater => some above
  | greaterOrEqual => some (above || same)
  | like => none
  | notLike => none

/-- What an operator asks of a truth value, given whether it is the literal. -/
def onTruth? (same : Bool) : Operator → Option Bool
  | equal => some same
  | notEqual => some !same
  | _ => none

/-- The strict operators, each with the one that allows for equality besides. -/
inductive WeakenedTo : Operator → Operator → Prop
  /-- Below, and not above. -/
  | less : WeakenedTo less lessOrEqual
  /-- Above, and not below. -/
  | greater : WeakenedTo greater greaterOrEqual

theorem asks?_eq_onOrder? {α : Type} [LT α] [DecidableEq α] [DecidableLT α] (op : Operator)
    (x y : α) :
    op.asks? x y = op.onOrder? (decide (x < y)) (decide (x = y)) (decide (y < x)) := by
  cases op <;> simp [asks?, onOrder?]

end Operator

/-- A NaN is the only double without a place. -/
theorem Binary64.exists_place?_eq_some {x : Binary64} (h : x ≠ .nan) : ∃ a, x.place? = some a := by
  rcases x with _ | s | x
  · exact absurd rfl h
  · cases s <;> exact ⟨_, rfl⟩
  · exact ⟨_, rfl⟩

theorem Binary64.IsSigned.ne_nan {f : Bool → Binary64} (h : IsSigned f) (negative : Bool) :
    f negative ≠ .nan := by
  rcases h with h | ⟨units, hr, h⟩ <;> rw [h] <;> exact Binary64.noConfusion

/-- Numbers of a document are numbers. -/
theorem Document.Number.toBinary64_ne_nan (n : Document.Number) : n.toBinary64 ≠ .nan := by
  cases n with
  | integer i h => exact (Binary64.isSigned_ofRatio i.natAbs 1).ne_nan _
  | real x => exact Binary64.noConfusion

/-- A double and one that may be a NaN: they have an order, or no operator but one holds. -/
theorem Operator.exists_asksDoubles?_eq_onOrder? {x : Binary64} (hx : x ≠ .nan) (y : Binary64) :
    ∃ below same above : Bool, (y ≠ .nan → (below || same || above) = true) ∧
      ∀ op : Operator, op.asksDoubles? x y = op.onOrder? below same above := by
  obtain ⟨a, ha⟩ := Binary64.exists_place?_eq_some hx
  by_cases hy : y = .nan
  · refine ⟨false, false, false, fun hne => absurd hy hne, fun op => ?_⟩
    rw [hy]
    unfold asksDoubles?
    rw [ha]
    cases op <;> rfl
  · obtain ⟨b, hb⟩ := Binary64.exists_place?_eq_some hy
    refine ⟨decide (a < b), decide (a = b), decide (b < a), fun _ => ?_, ?_⟩
    · simp only [Bool.or_eq_true, decide_eq_true_eq]
      omega
    · intro op
      unfold asksDoubles?
      rw [ha, hb]
      exact op.asks?_eq_onOrder? a b

/-- The answer of a single value to an operator, errors left out. -/
def heard (path : Path) (literal : String) (l : Document) (op : Operator) : Option Bool :=
  (Condition.judgement ⟨path, op, literal⟩ l).toOption

theorem heard_eq_some_iff {path : Path} {literal : String} {l : Document} {op : Operator}
    {b : Bool} :
    heard path literal l op = some b ↔ Condition.judgement ⟨path, op, literal⟩ l = .ok b := by
  rw [heard]
  cases Condition.judgement ⟨path, op, literal⟩ l <;> simp [Except.toOption]

/-- **How a value answers the eight operators.** -/
inductive Conduct (literal : String) (l : Document) (answers : Operator → Option Bool) : Prop
  /-- A null says no to all of them. -/
  | null (hl : l = .null) (h : ∀ op, answers op = some false)
  /-- A value that cannot be compared with the literal answers none. -/
  | refused (hl : l ≠ .null) (h : ∀ op, answers op = none)
  /-- A truth value is the literal or it is not. -/
  | truth (hl : l ≠ .null) (same : Bool) (h : ∀ op, answers op = op.onTruth? same)
  /-- A string or a number has a place before the literal, at it or after it, if only the
  literal has one itself. -/
  | placed (hl : l ≠ .null) (below same above : Bool)
    (htotal : Binary64.ofChars? literal.toList ≠ some .nan → (below || same || above) = true)
    (h : ∀ op, answers op = op.onOrder? below same above)

theorem toOption_answer (c : Condition) (kind : Kind) (answer : Option Bool) :
    (c.answer kind answer).toOption = answer := by
  cases answer <;> rfl

/-- **Every value but an array answers in one of these ways.** -/
theorem conduct_heard (path : Path) (literal : String) {l : Document} (hl : l.isArray = false) :
    Conduct literal l (heard path literal l) := by
  cases l with
  | null => exact .null rfl fun op => rfl
  | array elements => cases hl
  | object members => exact .refused (by simp) fun op => rfl
  | string s =>
    obtain ⟨x, hx⟩ : ∃ x, s.toUTF8.data.toList = x := ⟨_, rfl⟩
    obtain ⟨y, hy⟩ : ∃ y, literal.toUTF8.data.toList = y := ⟨_, rfl⟩
    have hbytes := tells_compare_bytes x y
    refine .placed (by simp) (decide (x < y)) (decide (x = y)) (decide (y < x)) (fun _ => ?_)
      fun op => ?_
    · -- bytes are always in some order
      simp only [Bool.or_eq_true, decide_eq_true_eq]
      cases h : compare x y <;> rw [h] at hbytes
      · exact Or.inl (Or.inl hbytes.1)
      · exact Or.inl (Or.inr hbytes.1)
      · exact Or.inr hbytes.1
    · rw [heard, Condition.judgement, hx, hy]
      exact (toOption_answer _ _ _).trans (op.asks?_eq_onOrder? x y)
  | number n =>
    cases hy : Binary64.ofChars? literal.toList with
    | none =>
      refine .refused (by simp) fun op => ?_
      rw [heard, Condition.judgement, hy]
      rfl
    | some y =>
      obtain ⟨below, same, above, htotal, h⟩ :=
        Operator.exists_asksDoubles?_eq_onOrder? n.toBinary64_ne_nan y
      refine .placed (by simp) below same above (fun hne => htotal ?_) fun op => ?_
      · rintro rfl
        exact hne hy
      · rw [heard, Condition.judgement, hy]
        exact (toOption_answer _ _ _).trans (h op)
  | bool b =>
    cases hy : booleanSpellings.lookup literal with
    | none =>
      refine .refused (by simp) fun op => ?_
      rw [heard, Condition.judgement, hy]
      rfl
    | some y =>
      refine .truth (by simp) (decide (b = y)) fun op => ?_
      rw [heard, Condition.judgement, hy]
      refine (toOption_answer _ _ _).trans ?_
      cases op <;> simp [Operator.onTruth?]

/-! ### Laws of single values -/

section Laws

variable (path : Path) (literal : String) {l : Document} (hl : l.isArray = false)

theorem heard_null (op : Operator) : heard path literal .null op = some false := rfl

include hl

/-- A value that satisfies a strict operator satisfies the weaker one, and one that does not
satisfies the weaker one if it is equal. -/
theorem heard_of_weakenedTo {strict weak : Operator} (h : strict.WeakenedTo weak) :
    (heard path literal l strict = some true → heard path literal l weak = some true) ∧
      (heard path literal l strict = some false →
        heard path literal l weak = heard path literal l .equal) := by
  cases conduct_heard path literal hl with
  | null _ hops => simp [hops]
  | refused _ hops => simp [hops]
  | truth _ same hops => cases h <;> simp [hops, Operator.onTruth?]
  | placed _ below same above _ hops =>
    cases h <;> constructor <;> intro hstrict <;> simp_all [Operator.onOrder?]

/-- What is not equal is unequal, unless it is a null. -/
theorem heard_notEqual (hequal : heard path literal l .equal = some false) (hne : l ≠ .null) :
    heard path literal l .notEqual = some true := by
  cases conduct_heard path literal hl with
  | null hnull _ => exact absurd hnull hne
  | refused _ hops => simp [hops] at hequal
  | truth _ same hops => simp_all [Operator.onTruth?]
  | placed _ below same above _ hops => simp_all [Operator.onOrder?]

/-- What is neither below, at nor above a literal that has a place is a null. -/
theorem eq_null_of_heard (hliteral : Binary64.ofChars? literal.toList ≠ some .nan)
    (hless : heard path literal l .less = some false)
    (hequal : heard path literal l .equal = some false)
    (hgreater : heard path literal l .greater = some false) : l = .null := by
  cases conduct_heard path literal hl with
  | null hnull _ => exact hnull
  | refused _ hops => simp [hops] at hequal
  | truth _ same hops => simp [hops, Operator.onTruth?] at hless
  | placed _ below same above htotal hops => simp_all [Operator.onOrder?]

/-- A reserved operator is answered by a null only, and with no. -/
theorem heard_reserved {op : Operator} (hop : op ∈ [.like, .notLike]) :
    heard path literal l op ≠ some true ∧
      (heard path literal l op = some false ↔ l = .null) := by
  obtain rfl | rfl : op = .like ∨ op = .notLike := by simpa using hop
  all_goals
    cases conduct_heard path literal hl with
    | null hnull hops => simp [hnull, heard_null]
    | refused hne hops => simp [hops, hne]
    | truth hne same hops => simp [hops, hne, Operator.onTruth?]
    | placed hne below same above _ hops => simp [hops, hne, Operator.onOrder?]

end Laws

/-! ### Scans side by side -/

/-- **Two scans make a third.** Where the first two answer, the third one answers as the
first or, where that says no, as the second. -/
theorem firstAnswer_or {ls : List Document}
    {strict equal weak : Document → Except EvaluationError Bool}
    (htrue : ∀ l ∈ ls, strict l = .ok true → weak l = .ok true)
    (hfalse : ∀ l ∈ ls, ∀ b, strict l = .ok false → equal l = .ok b → weak l = .ok b)
    {a b : Bool} (ha : firstAnswer (ls.map strict) = .ok a)
    (hb : firstAnswer (ls.map equal) = .ok b) : firstAnswer (ls.map weak) = .ok (a || b) := by
  induction ls with
  | nil =>
    obtain rfl : false = a := Except.ok.inj ha
    obtain rfl : false = b := Except.ok.inj hb
    rfl
  | cons l ls ih =>
    rw [List.forall_mem_cons] at htrue hfalse
    rw [List.map_cons] at ha hb ⊢
    by_cases hstrict : strict l = .ok false
    · rw [hstrict, firstAnswer_cons_of_false] at ha
      by_cases hequal : equal l = .ok false
      · rw [hequal, firstAnswer_cons_of_false] at hb
        rw [hfalse.1 false hstrict hequal, firstAnswer_cons_of_false]
        exact ih htrue.2 hfalse.2 ha hb
      · -- the second scan ends here, and so does the third
        rw [firstAnswer_cons_of_ne hequal] at hb
        have hb' : b = true := by
          rw [← Bool.not_eq_false]
          rintro rfl
          exact hequal hb
        have hweak := hfalse.1 b hstrict hb
        rw [hb'] at hweak ⊢
        rw [firstAnswer_cons_of_ne (by simp [hweak]), hweak, Bool.or_true]
    · -- the first scan ends here, whatever the second would come to
      rw [firstAnswer_cons_of_ne hstrict] at ha
      have ha' : a = true := by
        rw [← Bool.not_eq_false]
        rintro rfl
        exact hstrict ha
      have hweak := htrue.1 (ha' ▸ ha)
      rw [firstAnswer_cons_of_ne (by simp [hweak]), hweak, ha', Bool.true_or]

/-! ### Documents -/

/-- **The answer of a document to an operator**, for what is at a path and a literal. -/
def answerTo (path : Path) (literal : String) (d : Document) (op : Operator) :
    Except EvaluationError Bool :=
  Condition.satisfiedBy ⟨path, op, literal⟩ d

section Documents

variable (path : Path) (literal : String) (d : Document)

theorem answerTo_eq_firstAnswer (op : Operator) :
    answerTo path literal d op = firstAnswer ((leaves d path.segments).map
      (Condition.judgement ⟨path, op, literal⟩)) :=
  Condition.follow_eq_firstAnswer _ d path.segments

/-- A document says no exactly if all its leaves do. -/
theorem answerTo_eq_false_iff (op : Operator) :
    answerTo path literal d op = .ok false ↔
      ∀ l ∈ leaves d path.segments, heard path literal l op = some false := by
  rw [answerTo_eq_firstAnswer, firstAnswer_eq_false_iff, List.forall_mem_map]
  simp only [heard_eq_some_iff]

theorem exists_of_answerTo_ne_false {op : Operator} (h : answerTo path literal d op ≠ .ok false) :
    ∃ l ∈ leaves d path.segments,
      answerTo path literal d op = Condition.judgement ⟨path, op, literal⟩ l := by
  rw [answerTo_eq_firstAnswer] at h ⊢
  obtain ⟨l, hl, hjudgement⟩ := List.mem_map.mp (firstAnswer_mem h)
  exact ⟨l, hl, hjudgement.symm⟩

theorem answerTo_weaker {strict weak : Operator} (h : strict.WeakenedTo weak) {a b : Bool}
    (ha : answerTo path literal d strict = .ok a) (hb : answerTo path literal d .equal = .ok b) :
    answerTo path literal d weak = .ok (a || b) := by
  rw [answerTo_eq_firstAnswer] at ha hb ⊢
  refine firstAnswer_or (fun l hl hstrict => ?_) (fun l hl b hstrict hequal => ?_) ha hb
  · rw [← heard_eq_some_iff] at hstrict ⊢
    exact (heard_of_weakenedTo path literal (isArray_of_mem_leaves hl) h).1 hstrict
  · rw [← heard_eq_some_iff] at hstrict hequal ⊢
    rw [(heard_of_weakenedTo path literal (isArray_of_mem_leaves hl) h).2 hstrict, hequal]

theorem answerTo_of_null (hnull : ∀ l ∈ leaves d path.segments, l = .null) (op : Operator) :
    answerTo path literal d op = .ok false := by
  rw [answerTo_eq_false_iff]
  intro l hl
  rw [hnull l hl, heard_null]

theorem answerTo_notEqual (hequal : answerTo path literal d .equal = .ok false)
    (hleaf : ∃ l ∈ leaves d path.segments, l ≠ .null) :
    answerTo path literal d .notEqual = .ok true := by
  rw [answerTo_eq_false_iff] at hequal
  have hlaw : ∀ l ∈ leaves d path.segments, l ≠ .null →
      heard path literal l .notEqual = some true := fun l hl =>
    heard_notEqual path literal (isArray_of_mem_leaves hl) (hequal l hl)
  -- a leaf that is no null ends the scan, and so some leaf does
  have hends : answerTo path literal d .notEqual ≠ .ok false := by
    rw [ne_eq, answerTo_eq_false_iff]
    intro hall
    obtain ⟨l, hl, hne⟩ := hleaf
    have h := (hlaw l hl hne).symm.trans (hall l hl)
    cases h
  obtain ⟨l, hl, hanswer⟩ := exists_of_answerTo_ne_false path literal d hends
  have hne : l ≠ .null := by
    rintro rfl
    exact hends hanswer
  rw [hanswer, ← heard_eq_some_iff, hlaw l hl hne]

theorem answerTo_reserved {op : Operator} (hop : op ∈ [.like, .notLike]) :
    answerTo path literal d op ≠ .ok true ∧
      (answerTo path literal d op = .ok false ↔ ∀ l ∈ leaves d path.segments, l = .null) := by
  have hlaw {l : Document} (hl : l ∈ leaves d path.segments) :=
    heard_reserved path literal (isArray_of_mem_leaves hl) hop
  constructor
  · intro h
    have hends : answerTo path literal d op ≠ .ok false := by simp [h]
    obtain ⟨l, hl, hanswer⟩ := exists_of_answerTo_ne_false path literal d hends
    exact (hlaw hl).1 (heard_eq_some_iff.mpr (hanswer ▸ h))
  · rw [answerTo_eq_false_iff]
    exact forall₂_congr fun l hl => (hlaw hl).2

end Documents

/-- **The answers of a document to all operators hang together.** What allows for equality is
satisfied if the strict operator or equality is. Where nothing is equal, some leaf is unequal
if there is one that is no null. Where nothing is below, at or above a literal that is no NaN,
there are only nulls, which satisfy no operator. And the reserved operators are satisfied by
nothing, and fail for everything but nulls. -/
theorem answers_coherent (path : Path) (literal : String) (d : Document) :
    (∀ a b, answerTo path literal d .greater = .ok a → answerTo path literal d .equal = .ok b →
      answerTo path literal d .greaterOrEqual = .ok (a || b)) ∧
    (∀ a b, answerTo path literal d .less = .ok a → answerTo path literal d .equal = .ok b →
      answerTo path literal d .lessOrEqual = .ok (a || b)) ∧
    (answerTo path literal d .equal = .ok false →
      ((∃ l ∈ leaves d path.segments, l ≠ .null) →
        answerTo path literal d .notEqual = .ok true) ∧
      ((∀ l ∈ leaves d path.segments, l = .null) →
        answerTo path literal d .notEqual = .ok false)) ∧
    (Binary64.ofChars? literal.toList ≠ some .nan → answerTo path literal d .less = .ok false →
      answerTo path literal d .equal = .ok false → answerTo path literal d .greater = .ok false →
      (∀ l ∈ leaves d path.segments, l = .null) ∧ ∀ op, answerTo path literal d op = .ok false) ∧
    ∀ op ∈ [.like, .notLike], answerTo path literal d op ≠ .ok true ∧
      (answerTo path literal d op = .ok false ↔ ∀ l ∈ leaves d path.segments, l = .null) := by
  refine ⟨fun a b => answerTo_weaker path literal d .greater,
    fun a b => answerTo_weaker path literal d .less, fun hequal => ⟨?_, fun hnull => ?_⟩, ?_,
    fun op => answerTo_reserved path literal d⟩
  · exact answerTo_notEqual path literal d hequal
  · exact answerTo_of_null path literal d hnull .notEqual
  · intro hliteral hless hequal hgreater
    rw [answerTo_eq_false_iff] at hless hequal hgreater
    have hnull : ∀ l ∈ leaves d path.segments, l = .null := fun l hl =>
      eq_null_of_heard path literal (isArray_of_mem_leaves hl) hliteral (hless l hl)
        (hequal l hl) (hgreater l hl)
    exact ⟨hnull, answerTo_of_null path literal d hnull⟩

/-- The member `x`. -/
def memberX : Path := ⟨"x", [⟨some "x", []⟩]⟩

/-- A member `x` with a null, a number and a string, these two in an array of their own, and
other values after them. -/
def mixed (others : List Document) : Document :=
  .object [("x", .array
    (.null :: .array [.number (.integer 0 (by decide)), .string "a"] :: others))]

/-- With the literal `1` the scan for `>` ends at the string, before a truth value at which it
would fail, and the scan for `=` ends at this truth value. Without the truth value nothing is
equal. And where there are nulls only, nothing is below, at or above the literal. -/
theorem answers_coherent_mixed :
    (answerTo memberX "1" (mixed [.bool true]) .greater = .ok true ∧
      answerTo memberX "1" (mixed [.bool true]) .equal = .ok true ∧
      answerTo memberX "1" (mixed [.bool true]) .greaterOrEqual = .ok true) ∧
    (answerTo memberX "1" (mixed []) .equal = .ok false ∧
      answerTo memberX "1" (mixed []) .notEqual = .ok true) ∧
    ∀ op, answerTo memberX "1" (.object [("x", .array [.null, .array []])]) op = .ok false := by
  have hgreater : answerTo memberX "1" (mixed [.bool true]) .greater = .ok true := by
    decide +kernel
  have hequal : answerTo memberX "1" (mixed [.bool true]) .equal = .ok true := by
    decide +kernel
  have hunequal : answerTo memberX "1" (mixed []) .equal = .ok false := by
    decide +kernel
  have hleaf : ∃ l ∈ leaves (mixed []) memberX.segments, l ≠ .null :=
    ⟨.string "a", by simp [memberX, mixed, leaves, Segment.leadsTo?, Document.descend?], by simp⟩
  refine ⟨⟨hgreater, hequal, (answers_coherent memberX "1" _).1 true true hgreater hequal⟩,
    ⟨hunequal, ((answers_coherent memberX "1" _).2.2.1 hunequal).1 hleaf⟩, ?_⟩
  exact ((answers_coherent memberX "1" _).2.2.2.1 (by decide +kernel) rfl rfl rfl).2

end JsonSieve
