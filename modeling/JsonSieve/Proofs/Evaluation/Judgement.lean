import JsonSieve.Evaluation.Match

/-!
# What a single value is worth

The answer for one value, said by the orders themselves: bytes are compared as lists of
bytes, doubles by where they lie on the line (`JsonSieve.Binary64.place?`), the infinities
lying where doubles overflow, beyond every finite one, and a NaN having no place.
`JsonSieve.Condition.judgement` is the table of answers; its rows for strings and numbers
ask the operator about `<` and `=` (`JsonSieve.Operator.asks?`), where the evaluator asks
it about the outcome of a comparison. Truth values have a table of spellings
(`JsonSieve.booleanSpellings`).

That the two agree on every value but an array is
`JsonSieve.Condition.verdict_eq_judgement`. What joins them is that a comparison
tells how two values lie (`JsonSieve.Tells`), for bytes as well as for doubles.
-/

namespace JsonSieve

/-! ### Operators between values of one order -/

section Orders

variable {α : Type} [LT α]

/-- What an operator asks of two values. The reserved operators ask nothing. -/
def Operator.asks? [DecidableEq α] [DecidableLT α] (op : Operator) (x y : α) : Option Bool :=
  match op with
  | .equal => some (decide (x = y))
  | .notEqual => some (decide (x ≠ y))
  | .less => some (decide (x < y))
  | .lessOrEqual => some (decide (x < y ∨ x = y))
  | .greater => some (decide (y < x))
  | .greaterOrEqual => some (decide (y < x ∨ x = y))
  | .like => none
  | .notLike => none

/-- The outcome of a comparison tells how two values lie. -/
def Tells (o : Ordering) (x y : α) : Prop :=
  match o with
  | .lt => x < y ∧ x ≠ y ∧ ¬y < x
  | .eq => x = y ∧ ¬x < y ∧ ¬y < x
  | .gt => y < x ∧ x ≠ y ∧ ¬x < y

/-- **An operator that knows the outcome of a comparison knows its answer.** -/
theorem Operator.holds?_of_tells [DecidableEq α] [DecidableLT α] (op : Operator) {o : Ordering}
    {x y : α} (h : Tells o x y) : op.holds? (some o) = op.asks? x y := by
  cases o with
  | lt =>
    obtain ⟨hlt, hne, hgt⟩ := h
    cases op <;> simp [Operator.holds?, Operator.asks?, hlt, hne, hgt]
  | eq =>
    obtain ⟨rfl, hlt, -⟩ := h
    cases op <;> simp [Operator.holds?, Operator.asks?, hlt]
  | gt =>
    obtain ⟨hgt, hne, hlt⟩ := h
    cases op <;> simp [Operator.holds?, Operator.asks?, hlt, hne, hgt]

end Orders

/-! ### Bytes -/

theorem tells_compare_byte (a b : UInt8) : Tells (compare a b) a b := by
  cases h : compare a b with
  | lt =>
    have hlt : a < b := Std.compare_eq_lt.mp h
    exact ⟨hlt, UInt8.ne_of_lt hlt, UInt8.lt_asymm hlt⟩
  | eq =>
    obtain rfl : a = b := Std.LawfulEqOrd.compare_eq_iff_eq.mp h
    exact ⟨rfl, UInt8.lt_irrefl a, UInt8.lt_irrefl a⟩
  | gt =>
    have hgt : b < a := Std.compare_eq_gt.mp h
    exact ⟨hgt, (UInt8.ne_of_lt hgt).symm, UInt8.lt_asymm hgt⟩

/-- **Bytes are compared as in a dictionary.** -/
theorem tells_compare_bytes (s t : List UInt8) : Tells (compare s t) s t := by
  induction s generalizing t with
  | nil =>
    cases t with
    | nil => exact ⟨rfl, List.not_lt_nil _, List.not_lt_nil _⟩
    | cons b t => exact ⟨List.nil_lt_cons b t, (List.cons_ne_nil b t).symm, List.not_lt_nil _⟩
  | cons a s ih =>
    cases t with
    | nil => exact ⟨List.nil_lt_cons a s, List.cons_ne_nil a s, List.not_lt_nil _⟩
    | cons b t =>
      -- the first bytes decide, unless they are equal
      have hhead := tells_compare_byte a b
      have htail := ih t
      rw [List.compare_cons_cons]
      cases h : compare a b with
      | lt =>
        rw [h] at hhead
        obtain ⟨hlt, hne, hgt⟩ := hhead
        simp [Tells, List.cons_lt_cons_iff, hlt, hne, hgt, Ne.symm hne]
      | eq =>
        rw [h] at hhead
        obtain ⟨rfl, hlt, -⟩ := hhead
        cases h' : compare s t <;> rw [h'] at htail <;>
          simpa [Tells, List.cons_lt_cons_iff, hlt] using htail
      | gt =>
        rw [h] at hhead
        obtain ⟨hgt, hne, hlt⟩ := hhead
        simp [Tells, List.cons_lt_cons_iff, hlt, hne, hgt, Ne.symm hne]

/-! ### Truth values -/

/-- **The spellings of the truth values.** -/
def booleanSpellings : List (String × Bool) :=
  [("1", true), ("t", true), ("T", true), ("true", true), ("True", true), ("TRUE", true),
    ("0", false), ("f", false), ("F", false), ("false", false), ("False", false), ("FALSE", false)]

/-- A literal is a truth value exactly if it is one of the spellings. -/
theorem booleanLiteral?_eq_lookup (literal : String) :
    booleanLiteral? literal = booleanSpellings.lookup literal := by
  cases h : booleanSpellings.lookup literal with
  | some b =>
    have hall : ∀ entry ∈ booleanSpellings, booleanLiteral? entry.1 = some entry.2 := by decide
    obtain ⟨before, after, htable, -⟩ := List.lookup_eq_some_iff.mp h
    exact hall (literal, b) (by simp [htable])
  | none =>
    have hnone := List.lookup_eq_none_iff.mp h
    simp only [booleanSpellings, List.forall_mem_cons, bne_iff_ne, ne_eq] at hnone
    simp [booleanLiteral?, hnone]

/-! ### Doubles -/

namespace Binary64

/-- Where a double lies, in units: the infinities lie where doubles overflow, and a NaN
lies nowhere. -/
def place? : Binary64 → Option Int
  | nan => none
  | infinite true => some (-(Nat.pow 2 overflowExponent : Nat))
  | infinite false => some (Nat.pow 2 overflowExponent : Nat)
  | finite x => some x.signedUnits

/-- Every finite double lies between the infinities. -/
theorem Finite.signedUnits_between (x : Finite) :
    -((Nat.pow 2 overflowExponent : Nat) : Int) < x.signedUnits ∧
      x.signedUnits < (Nat.pow 2 overflowExponent : Nat) := by
  have h := x.representable.2
  rw [signedUnits]
  constructor <;> split <;> omega

end Binary64

/-- What an operator asks of two doubles. Without a place on the line they are
different and nothing else. -/
def Operator.asksDoubles? (op : Operator) (x y : Binary64) : Option Bool :=
  match x.place?, y.place? with
  | some a, some b => op.asks? a b
  | _, _ =>
    match op with
    | .like => none
    | .notLike => none
    | op => some (decide (op = .notEqual))

theorem tells_compare_int (m n : Int) : Tells (compare m n) m n := by
  cases h : compare m n with
  | lt =>
    have hlt : m < n := Int.compare_eq_lt.mp h
    exact ⟨hlt, Int.ne_of_lt hlt, Int.lt_asymm hlt⟩
  | eq =>
    obtain rfl : m = n := Int.compare_eq_eq.mp h
    exact ⟨rfl, Int.lt_irrefl m, Int.lt_irrefl m⟩
  | gt =>
    have hgt : n < m := Int.compare_eq_gt.mp h
    exact ⟨hgt, (Int.ne_of_lt hgt).symm, Int.lt_asymm hgt⟩

/-- What lies below is less. -/
theorem tells_lt {m n : Int} (h : m < n) : Tells .lt m n :=
  ⟨h, Int.ne_of_lt h, Int.lt_asymm h⟩

/-- What lies above is greater. -/
theorem tells_gt {m n : Int} (h : n < m) : Tells .gt m n :=
  ⟨h, (Int.ne_of_lt h).symm, Int.lt_asymm h⟩

/-- **Doubles are compared by their places.** -/
theorem Operator.holds?_compare? (op : Operator) (x y : Binary64) :
    op.holds? (x.compare? y) = op.asksDoubles? x y := by
  have hnone : op.holds? none = match op with
      | .like => none
      | .notLike => none
      | op => some (decide (op = .notEqual)) := by
    cases op <;> rfl
  -- the two ends are apart
  have hends : -((Nat.pow 2 Binary64.overflowExponent : Nat) : Int) <
      (Nat.pow 2 Binary64.overflowExponent : Nat) := by
    have := Binary64.two_pow_pos Binary64.overflowExponent
    omega
  cases x with
  | nan =>
    rw [Binary64.compare?_nan_left]
    exact hnone
  | infinite s =>
    cases y with
    | nan =>
      rw [Binary64.compare?_nan_right]
      cases s <;> exact hnone
    | infinite t =>
      cases s <;> cases t
      · exact op.holds?_of_tells ⟨rfl, Int.lt_irrefl _, Int.lt_irrefl _⟩
      · exact op.holds?_of_tells (tells_gt hends)
      · exact op.holds?_of_tells (tells_lt hends)
      · exact op.holds?_of_tells ⟨rfl, Int.lt_irrefl _, Int.lt_irrefl _⟩
    | finite y =>
      obtain ⟨hlow, hhigh⟩ := y.signedUnits_between
      cases s with
      | false => exact op.holds?_of_tells (tells_gt hhigh)
      | true => exact op.holds?_of_tells (tells_lt hlow)
  | finite x =>
    obtain ⟨hlow, hhigh⟩ := x.signedUnits_between
    cases y with
    | nan => exact hnone
    | infinite t =>
      cases t with
      | false => exact op.holds?_of_tells (tells_lt hhigh)
      | true => exact op.holds?_of_tells (tells_gt hlow)
    | finite y => exact op.holds?_of_tells (tells_compare_int x.signedUnits y.signedUnits)

/-! ### The table of answers -/

namespace Condition

/-- The answer to what the operator asks of values of a kind, if it asks
anything. -/
def answer (c : Condition) (kind : Kind) : Option Bool → Except EvaluationError Bool
  | some b => .ok b
  | none => .error (.unsupportedOperator c.operator kind)

/-- **The answer for a single value.** A literal of the wrong kind comes before an
operator without a meaning. Arrays are no single values. -/
def judgement (c : Condition) : Document → Except EvaluationError Bool
  | .null => .ok false
  | .object _ => .error (.comparedObject c.path.written)
  | .string s =>
    c.answer .string (c.operator.asks? s.toUTF8.data.toList c.value.toUTF8.data.toList)
  | .number n =>
    match Binary64.ofChars? c.value.toList with
    | none => .error (.notANumber c.value)
    | some y => c.answer .number (c.operator.asksDoubles? n.toBinary64 y)
  | .bool b =>
    match booleanSpellings.lookup c.value with
    | none => .error (.notABoolean c.value)
    | some y =>
      c.answer .boolean (match c.operator with
        | .equal => some (decide (b = y))
        | .notEqual => some (decide (b ≠ y))
        | _ => none)
  | .array _ => .ok false

theorem decideOrder_eq_answer (c : Condition) (kind : Kind) (order : Option Ordering) :
    c.decideOrder kind order = c.answer kind (c.operator.holds? order) := by
  unfold decideOrder
  cases c.operator.holds? order <;> rfl

/-- **The evaluator's answer for a value is that of the table.** -/
theorem verdict_eq_judgement (c : Condition) (d : Document) : c.verdict d = c.judgement d := by
  cases d with
  | null => rfl
  | object members => rfl
  | array elements => rfl
  | string s =>
    rw [verdict, testString, decideOrder_eq_answer, Utf8.order,
      c.operator.holds?_of_tells (tells_compare_bytes _ _), Utf8.bytes_eq_toUTF8,
      Utf8.bytes_eq_toUTF8]
    rfl
  | number n =>
    rw [verdict, testNumber, judgement]
    cases Binary64.ofChars? c.value.toList with
    | none => rfl
    | some y => simp only [decideOrder_eq_answer, Operator.holds?_compare?]
  | bool b =>
    rw [verdict, testBoolean, judgement, booleanLiteral?_eq_lookup]
    cases booleanSpellings.lookup c.value with
    | none => rfl
    | some y =>
      -- eight operators and two truth values on either side
      obtain ⟨path, op, value⟩ := c
      cases op <;> cases b <;> cases y <;> rfl

end Condition

end JsonSieve
