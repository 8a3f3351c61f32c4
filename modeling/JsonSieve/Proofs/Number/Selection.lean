import JsonSieve.Document.Printer
import JsonSieve.Proofs.Binary64.Monotone
import JsonSieve.Proofs.Number.Comparison
import JsonSieve.Proofs.Number.Written

/-!
# A written number selects itself

The literal that is the written form of a number stands for the double that this number is
rounded to (`JsonSieve.NumberText.ofChars?_toChars`), and so a document with the number is
found by it (`JsonSieve.Comparison.answers_written`).

For a double it is the digits that have to be right. They are chosen so that they read back
(`JsonSieve.Binary64.Finite.ofDecimal_shortest`), and their layout only moves the point, on
which a double that is rounded from the exact value does not depend
(`JsonSieve.Binary64.ofDecimal_congr`). An integer need not be a double, but it and its
digits are rounded to the same one.
-/

namespace JsonSieve

/-! ### The shortest decimal -/

namespace Binary64.Finite

/-- All digits of a double together are exact. -/
theorem ofDecimal_decimalUnits (x : Finite) :
    ofDecimal x.negative x.decimalUnits (-(unitExponent : Int)) = .finite x := by
  have hexponent : -(unitExponent : Int) = .negSucc (unitExponent - 1) := rfl
  have hunit : unitExponent - 1 + 1 = unitExponent := rfl
  rw [hexponent, ofDecimal_negSucc, hunit]
  refine ofRatio_eq_finite_iff.mpr ⟨rfl, (roundUnits_eq (Nat.pow_pos (by decide)) ?_
    x.representable).symm⟩
  have hten : 2 * 5 = 10 := rfl
  rw [decimalUnits, Nat.pow_eq, Nat.pow_eq, ← Nat.mul_assoc, ← mul_pow, hten, Nat.mul_comm]

/-- **The shortest decimal reads back.** -/
theorem ofDecimal_shortest (x : Finite) :
    ofDecimal x.negative x.shortest.coefficient x.shortest.exponent = .finite x := by
  rw [shortest]
  cases h : (List.range 17).findSome? fun n => x.ofDropped? (x.width - (n + 1)) with
  | none => exact x.ofDecimal_decimalUnits
  | some d =>
    obtain ⟨n, -, hd⟩ := List.exists_of_findSome?_eq_some h
    exact of_decide_eq_true (List.find?_some (p := x.readsBack) hd)

end Binary64.Finite

/-! ### Written numbers as literals -/

namespace NumberText

/-- **The written form of a number is a literal for the double nearest to it.** -/
theorem ofChars?_toChars (v : Document.Number) :
    (∀ c ∈ v.toChars, IsNumberChar c) ∧ Binary64.ofChars? v.toChars = some v.toBinary64 := by
  suffices hread : ∃ n : NumberText, n.text = v.toChars ∧
      Binary64.ofDecimal n.negative n.mantissa n.scale = v.toBinary64 by
    obtain ⟨n, htext, hvalue⟩ := hread
    rw [← htext, ← hvalue]
    exact ⟨n.isNumberChar_text, n.ofChars?_text⟩
  cases v with
  | integer i hi =>
    refine ⟨ofInt i, text_ofInt i hi, ?_⟩
    rw [mantissa_ofInt]
    exact Binary64.ofDecimal_exponent_zero _ _
  | real x =>
    obtain ⟨n, htext, hnegative, hvalue⟩ := exists_text_eq_finite x
    refine ⟨n, htext, ?_⟩
    rw [hnegative]
    split at hvalue
    · -- both zeros are kept apart by their signs
      rename_i hzero
      have hvalue' : (n.mantissa : ℚ) * 10 ^ n.scale = (0 : Nat) * 10 ^ (0 : Int) := by
        rw [Nat.cast_zero, zero_mul]
        exact hvalue
      rw [Binary64.ofDecimal_congr hvalue', Binary64.ofDecimal_zero]
      exact congrArg Binary64.finite (Binary64.Finite.ext rfl hzero.symm)
    · exact (Binary64.ofDecimal_congr hvalue _).trans x.ofDecimal_shortest

end NumberText

namespace Comparison

/-! ### The answers -/

/-- **A written number selects its own document**, and all others with the same double:
it is equal to the member, not below it and not above it. -/
theorem answers_written (v : Document.Number) {d : Document}
    (hd : d.member? "x" = some (.number v)) :
    (∀ op ∈ [.equal, .lessOrEqual, .greaterOrEqual],
      Answers op (Document.number v).render d true) ∧
    ∀ op ∈ [.notEqual, .less, .greater], Answers op (Document.number v).render d false := by
  obtain ⟨hchars, hread⟩ := NumberText.ofChars?_toChars v
  obtain ⟨a, ha⟩ := Binary64.exists_place?_eq_some v.toBinary64_ne_nan
  have hliteral : (Document.number v).render.toList = v.toChars := String.toList_ofList
  rw [← hliteral] at hchars hread
  have hanswers := answers_iff hd hchars hread ha ha
  simp [hanswers, Operator.asks?]

theorem representable_one : Binary64.Representable 1 := by decide +kernel

/-- The smallest positive double. -/
def smallest : Binary64.Finite := ⟨false, 1, representable_one⟩

/-- It is written with an exponent and one digit. -/
theorem answers_written_smallest :
    (Document.number (.real smallest)).render = "5e-324" ∧
      Answers .equal "5e-324" (holding (.real smallest)) true ∧
      Answers .greater "5e-324" (holding (.real smallest)) false := by
  have hrender : (Document.number (.real smallest)).render = "5e-324" := by decide +kernel
  have hanswers := answers_written (.real smallest) (member?_holding _)
  rw [hrender] at hanswers
  exact ⟨hrender, hanswers.1 .equal (by simp), hanswers.2 .greater (by simp)⟩

end Comparison

end JsonSieve
