import JsonSieve.Proofs.Binary64.Exact
import JsonSieve.Proofs.Number.Text

/-!
# Where the two readers of numbers agree

A literal is rounded once and the number of a document in steps, and they are compared as
the doubles that they are, without a tolerance. So a number is equal to itself, written
on either side, exactly if the steps lead to the nearest double
(`JsonSieve.NumberText.Agrees`, `JsonSieve.NumberText.compare?_number`).

They do so for every integer that a document keeps and for every short number
(`JsonSieve.NumberText.IsShort`): one whose digits fit, and with at most one rounding in
the steps.
-/

namespace JsonSieve

namespace NumberText

/-! ### Agreement -/

/-- The value that a document keeps is the one that a literal stands for. -/
def Agrees (n : NumberText) : Prop :=
  n.integer?.isSome = true ∨ n.stepped?.map .finite = some n.nearest

/-- A number whose digits all fit, with a significand of zero, no scaling, or a
significand and a power of ten that are doubles. -/
def IsShort (n : NumberText) : Prop :=
  n.mantissa < Document.significandLimit ∧
    (n.mantissa = 0 ∨ n.scale = 0 ∨ Binary64.IsExact n.mantissa ∧ n.scale.natAbs ≤ 22)

variable (n : NumberText)

instance : Decidable n.Agrees := inferInstanceAs (Decidable (_ ∨ _))

instance : Decidable n.IsShort := inferInstanceAs (Decidable (_ ∧ _))

/-- An integer is rounded as a whole number. -/
theorem toBinary64_of_integer? {negative : Bool} {m : Nat} {v : Document.Number}
    (h : Document.integer? negative m = some v) :
    v.toBinary64 = Binary64.ofRatio negative m 1 := by
  rw [Document.integer?] at h
  cases negative with
  | true =>
    rw [if_pos rfl] at h
    split at h
    · cases h
    · rename_i hm
      rw [Document.Number.ofInt?] at h
      split at h
      · cases h
        exact Binary64.ofInt_neg_natCast hm
      · cases h
  | false =>
    rw [if_neg Bool.false_ne_true, Document.Number.ofInt?] at h
    split at h
    · cases h
      exact Binary64.ofInt_natCast m
    · cases h

/-- An integer is rounded like the literal. -/
theorem compare?_integer {v : Document.Number} (h : n.integer? = some v) :
    v.toBinary64.compare? (.ofDecimal n.negative n.mantissa n.scale) = some .eq := by
  rw [integer?] at h
  split at h
  · rename_i hparts
    have hscale : n.scale = 0 := by
      rw [scale, Option.isNone_iff_eq_none.mp hparts.2, hparts.1]
      rfl
    rw [toBinary64_of_integer? h, hscale, ← Binary64.ofDecimal_exponent_zero]
    exact (Binary64.isSigned_ofDecimal n.mantissa 0).compare?_self n.negative
  · cases h

theorem negative_of_stepped? {x : Binary64.Finite} (h : n.stepped? = some x) :
    x.negative = false := by
  rw [stepped?] at h
  cases he : n.exponent with
  | none =>
    rw [he] at h
    exact Binary64.negative_of_scaled? h
  | some e =>
    rw [he, scaledBy?] at h
    split at h
    · exact Binary64.negative_of_scaled? h
    · split at h
      · cases h
      · rw [← Option.some.inj h]
        rfl

/-- **The comparison is the agreement**: the number that a document keeps is equal to the
literal exactly if both are rounded to one double. -/
theorem compare?_number {v : Document.Number} (h : n.number? = some v) :
    v.toBinary64.compare? (.ofDecimal n.negative n.mantissa n.scale) = some .eq ↔ n.Agrees := by
  rw [Agrees]
  cases hi : n.integer? with
  | some i =>
    rw [number?, hi] at h
    rw [← Option.some.inj h]
    exact ⟨fun _ => Or.inl rfl, fun _ => n.compare?_integer hi⟩
  | none =>
    -- no integer, so that what is kept is a double with the sign of the number
    rw [number?, hi, Option.none_or] at h
    obtain ⟨x, hx, rfl⟩ := Option.map_eq_some_iff.mp h
    rw [hx]
    refine (Binary64.compare?_ofDecimal (n.negative_of_stepped? hx) _ _ _).trans ?_
    simp [nearest]

/-- A double that is kept is arrived at by scaling, unless the exponent is not computed
and the double is a zero. -/
theorem scaled?_or_zero {x : Binary64.Finite} (hlt : n.mantissa < Document.significandLimit)
    (h : n.stepped? = some x) :
    Binary64.scaled? n.mantissa n.scale = some x ∨
      x = .zero false ∧ (n.mantissa = 0 ∨ n.scale < -22) := by
  rw [n.stepped?_of_lt hlt] at h
  cases he : n.exponent with
  | none =>
    rw [he] at h
    rw [scale, he, exponentValue, Int.zero_sub]
    exact Or.inl h
  | some e =>
    rw [he, scaledBy?] at h
    have hscale : n.scale = -(n.fraction.1.length : Int) + e.value := by
      rw [scale, he, exponentValue, Int.sub_eq_add_neg, Int.add_comm]
    split at h
    · rw [hscale]
      exact Or.inl h
    · rename_i hhuge
      split at h
      · cases h
      · rename_i hdown
        refine Or.inr ⟨(Option.some.inj h).symm, ?_⟩
        by_cases hzero : n.mantissa = 0
        · exact Or.inl hzero
        · -- a huge exponent is kept only if it is negative, and the fraction makes it smaller yet
          have hneg : e.negative = true := by simpa [hzero] using hdown
          have hvalue : e.value = -(e.magnitude : Int) := by rw [Exponent.value, if_pos hneg]
          unfold Document.maxExponent at hhuge
          exact Or.inr (by omega)

/-- **Short numbers agree**, if a document keeps them at all. -/
theorem agrees_of_isShort (h : n.IsShort) (hread : n.number?.isSome = true) : n.Agrees := by
  obtain ⟨hlt, hshort⟩ := h
  cases hi : n.integer? with
  | some i => exact Or.inl (by rw [hi]; rfl)
  | none =>
    rw [number?, hi, Option.none_or, Option.isSome_map] at hread
    obtain ⟨x, hx⟩ := Option.isSome_iff_exists.mp hread
    refine Or.inr ?_
    rw [hx, Option.map_some, nearest]
    refine congrArg some (Eq.symm ?_)
    rcases n.scaled?_or_zero hlt hx with hscaled | ⟨rfl, hzero⟩
    · rcases hshort with hm | hs | ⟨hm, hs⟩
      · rw [hm] at hscaled ⊢
        rw [Binary64.ofDecimal_zero, Binary64.scaled?_significand_zero hscaled]
      · rw [hs] at hscaled ⊢
        exact Binary64.scaled?_exponent_zero hscaled
      · exact Binary64.scaled?_of_isExact hm hs hscaled
    · -- an exponent that is not computed is far from short
      have hm : n.mantissa = 0 := by
        rcases hzero with hm | hs
        · exact hm
        · rcases hshort with hm | h | ⟨-, h⟩
          · exact hm
          · omega
          · omega
      rw [hm, Binary64.ofDecimal_zero]

end NumberText

end JsonSieve
