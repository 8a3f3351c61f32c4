import JsonSieve.Proofs.Binary64.Nearest
import JsonSieve.Proofs.Number.Comparison

/-!
# Integers compared with literals

An integer of a document and a literal are both rounded before they are compared. What the
answers say about the exact values is `JsonSieve.Comparison.answers_integer`: a strict
operator that is satisfied is right, one that allows for equality is satisfied wherever it
should be, and up to `2 ^ 53` all operators answer what they ask of the exact values. Beyond
that neighbours may become equal, but they never change places, because rounding keeps
the order (`JsonSieve.Binary64.nearestPlace_mono`).
-/

namespace JsonSieve

/-! ### Exact values -/

namespace Numeral

/-- The exact value of a literal, unless it is one of the names. -/
def value? : Numeral → Option ℚ
  | decimal negative mantissa exponent => some (Binary64.decimalValue negative mantissa exponent)
  | nan => none
  | infinity _ => none

/-- A literal with a value stands for the nearest double. -/
theorem exists_of_value? {text : List Char} {q : ℚ} (h : (ofChars? text).bind value? = some q) :
    (∀ c ∈ text, NumberText.IsNumberChar c) ∧
      ∃ y, Binary64.ofChars? text = some y ∧ y.place? = some (Binary64.nearestPlace q) := by
  obtain ⟨numeral, hread, hvalue⟩ := Option.bind_eq_some_iff.mp h
  cases numeral with
  | nan => cases hvalue
  | infinity negative => cases hvalue
  | decimal negative mantissa exponent =>
    obtain rfl : Binary64.decimalValue negative mantissa exponent = q := Option.some.inj hvalue
    have hspelling := ofChars?_eq_some_iff.mp hread
    refine ⟨hspelling.isNumberChar, .ofDecimal negative mantissa exponent, ?_, ?_⟩
    · rw [Binary64.ofChars?, hread]
      rfl
    · exact Binary64.place?_ofDecimal negative mantissa exponent

end Numeral

/-! ### Operators on another scale -/

/-- What an operator asks is not changed by a scale. -/
theorem Operator.asks?_mul_left (op : Operator) {k : Int} (hk : 0 < k) (m n : Int) :
    op.asks? (k * m) (k * n) = op.asks? m n := by
  have heq : k * m = k * n ↔ m = n := Int.mul_eq_mul_left_iff hk.ne'
  have hlt : ∀ {a b : Int}, k * a < k * b ↔ a < b := fun {a b} => Int.mul_lt_mul_left hk
  cases op <;> simp only [asks?, heq, hlt, ne_eq]

namespace Comparison

open Binary64

/-! ### The answers -/

/-- **Comparing an integer with a literal is sound for the exact values**: both are rounded
to the nearest doubles, and if `x < L` or `x > L` is satisfied, it is true; if one of `x <= L`,
`x >= L` and `x = L` is true, it is satisfied; and if the value of `L` is an integer and both
are at most `2 ^ 53` in size, then every operator answers what it asks of them. -/
theorem answers_integer {n : Int} {hn : -9223372036854775808 ≤ n ∧ n < 18446744073709551616}
    {d : Document} (hd : d.member? "x" = some (.number (.integer n hn))) {literal : String} {q : ℚ}
    (hq : (Numeral.ofChars? literal.toList).bind Numeral.value? = some q) :
    ((Document.Number.integer n hn).toBinary64.IsNearest n ∧
      ∃ y, Binary64.ofChars? literal.toList = some y ∧ y.IsNearest q) ∧
    (Answers .less literal d true → (n : ℚ) < q) ∧
    (Answers .greater literal d true → q < n) ∧
    ((n : ℚ) ≤ q → Answers .lessOrEqual literal d true) ∧
    (q ≤ n → Answers .greaterOrEqual literal d true) ∧
    ((n : ℚ) = q → Answers .equal literal d true) ∧
    ∀ k : Int, q = k → n.natAbs ≤ 2 ^ 53 → k.natAbs ≤ 2 ^ 53 →
      ∀ (op : Operator) (b : Bool), Answers op literal d b ↔ op.asks? n k = some b := by
  obtain ⟨hchars, y, hy, hplace⟩ := Numeral.exists_of_value? hq
  have hinteger : (Document.Number.integer n hn).toBinary64.place? = some (nearestPlace n) :=
    place?_ofInt n
  have hanswers := answers_iff hd hchars hy hinteger hplace
  refine ⟨⟨isNearest_of_place? hinteger, y, hy, isNearest_of_place? hplace⟩, ?_, ?_, ?_, ?_, ?_, ?_⟩
  · intro h
    have hlt : nearestPlace n < nearestPlace q := by
      simpa [Operator.asks?] using (hanswers _ _).mp h
    exact lt_of_nearestPlace_lt hlt
  · intro h
    have hlt : nearestPlace q < nearestPlace n := by
      simpa [Operator.asks?] using (hanswers _ _).mp h
    exact lt_of_nearestPlace_lt hlt
  · intro h
    have hle : nearestPlace n ≤ nearestPlace q := nearestPlace_mono h
    exact (hanswers _ _).mpr (by simpa [Operator.asks?] using hle.lt_or_eq)
  · intro h
    have hle : nearestPlace q ≤ nearestPlace n := nearestPlace_mono h
    exact (hanswers _ _).mpr (by simpa [Operator.asks?] using hle.lt_or_eq.imp_right Eq.symm)
  · rintro rfl
    exact (hanswers _ _).mpr (by simp [Operator.asks?])
  · rintro k rfl hsmall hsmall' op b
    have hunit : (0 : Int) < (Nat.pow 2 unitExponent : Nat) := by exact_mod_cast two_pow_pos _
    rw [hanswers, nearestPlace_intCast hsmall, nearestPlace_intCast hsmall',
      op.asks?_mul_left hunit]

/-- The first integer that is no double is equal to itself, the greatest integer is below a
literal that overflows, and a small one answers all operators exactly. -/
theorem answers_integer_edges :
    Answers .equal "9007199254740993" (holding (.integer 9007199254740993 (by decide))) true ∧
      Answers .less "1e400" (holding (.integer 18446744073709551615 (by decide))) true ∧
      ((18446744073709551615 : Int) : ℚ) < 10 ^ 400 ∧
      ∀ op b, Answers op "-2.50e1" (holding (.integer (-25) (by decide))) b ↔
        op.asks? (-25 : Int) (-25) = some b := by
  have hodd : (Numeral.ofChars? "9007199254740993".toList).bind Numeral.value? =
      some (9007199254740993 : Int) := by
    have hread : Numeral.ofChars? "9007199254740993".toList =
      some (.decimal false 9007199254740993 0) := by decide +kernel
    rw [hread]
    simp [Numeral.value?, decimalValue, signed]
  have hhuge : (Numeral.ofChars? "1e400".toList).bind Numeral.value? = some (10 ^ 400) := by
    have hread : Numeral.ofChars? "1e400".toList = some (.decimal false 1 400) := by
      decide +kernel
    rw [hread]
    simp [Numeral.value?, decimalValue, signed]
  have hsmall : (Numeral.ofChars? "-2.50e1".toList).bind Numeral.value? = some (-25 : Int) := by
    have hread : Numeral.ofChars? "-2.50e1".toList = some (.decimal true 250 (-1)) := by
      decide +kernel
    rw [hread]
    norm_num [Numeral.value?, decimalValue, signed]
  have hless : Answers .less "1e400" (holding (.integer 18446744073709551615 (by decide))) true :=
    ⟨_, parse_text (Numeral.exists_of_value? hhuge).1 .less, by decide +kernel⟩
  refine ⟨?_, hless, ?_, ?_⟩
  · obtain ⟨-, -, -, -, -, hequal, -⟩ := answers_integer (member?_holding _) hodd
    exact hequal rfl
  · obtain ⟨-, hbelow, -⟩ := answers_integer (member?_holding _) hhuge
    exact hbelow hless
  · obtain ⟨-, -, -, -, -, -, hexact⟩ := answers_integer (member?_holding _) hsmall
    exact hexact (-25) rfl (by decide) (by decide)

end Comparison

end JsonSieve
