import JsonSieve.Binary64.Scaling

/-!
# Where scaling in steps rounds once

`JsonSieve.Binary64.scaled?` rounds the significand, the power of ten and their
product or quotient; `JsonSieve.Binary64.ofDecimal` rounds the exact value once. The
two give the same double where at most one of the three roundings changes anything:

* **exact factors** – the significand is itself a double and the power of ten is at
  most `10 ^ 22`, the last one that is (`JsonSieve.Binary64.scaled?_of_isExact`);
* **no scaling** – the exponent is zero, and only the significand is rounded
  (`JsonSieve.Binary64.scaled?_exponent_zero`);
* **zero** – the significand is zero, whatever the exponent
  (`JsonSieve.Binary64.scaled?_significand_zero`).

All of it rests on two facts about rounding a quotient: it depends on the quotient alone
(`JsonSieve.Binary64.roundUnits_mul_left`), and it leaves a double as it is
(`JsonSieve.Binary64.roundUnits_eq`). Rounding also goes by the absolute value, so that
two roundings may be compared without their signs
(`JsonSieve.Binary64.compare?_ofDecimal`).
-/

namespace JsonSieve

namespace Binary64

/-! ### Rounding a quotient -/

theorem roundDiv_mul_left {k : Nat} (hk : 0 < k) (num den : Nat) :
    roundDiv (k * num) (k * den) = roundDiv num den := by
  have hlt : 2 * (k * (num % den)) < k * den ↔ 2 * (num % den) < den := by
    rw [Nat.mul_left_comm, Nat.mul_lt_mul_left hk]
  have hgt : k * den < 2 * (k * (num % den)) ↔ den < 2 * (num % den) := by
    rw [Nat.mul_left_comm, Nat.mul_lt_mul_left hk]
  simp only [roundDiv, Nat.mul_div_mul_left _ _ hk, Nat.mul_mod_mul_left, hlt, hgt]

theorem roundDiv_mul_right {den : Nat} (h : 0 < den) (q : Nat) : roundDiv (q * den) den = q := by
  simp [roundDiv, Nat.mul_div_cancel _ h, h]

/-- **Rounding depends on the quotient alone.** -/
theorem roundUnits_mul_left {k : Nat} (hk : 0 < k) (num den : Nat) :
    roundUnits (k * num) (k * den) = roundUnits num den := by
  simp only [roundUnits, Nat.mul_left_comm _ k, Nat.mul_div_mul_left _ _ hk, Nat.mul_assoc k,
    roundDiv_mul_left hk]

/-- **Rounding leaves a double as it is.** -/
theorem roundUnits_eq {num den units : Nat} (hden : 0 < den)
    (h : Nat.pow 2 unitExponent * num = units * den) (hr : Representable units) :
    roundUnits num den = units := by
  obtain ⟨q, hq⟩ := Nat.dvd_of_mod_eq_zero hr.1
  have hdiv : units * den / den = units := Nat.mul_div_cancel _ hden
  have hpos : 0 < den * Nat.pow 2 (gridExponent units) := Nat.mul_pos hden (two_pow_pos _)
  have hround : roundDiv (units * den) (den * Nat.pow 2 (gridExponent units)) = q := by
    have he : units * den = q * (den * Nat.pow 2 (gridExponent units)) := by
      refine (congrArg (· * den) hq).trans ?_
      rw [Nat.mul_right_comm, Nat.mul_comm, Nat.mul_comm den]
    rw [he, roundDiv_mul_right hpos]
  simp only [roundUnits, h, hdiv, hround]
  rw [Nat.mul_comm, ← hq]

@[simp] theorem roundUnits_zero (den : Nat) : roundUnits 0 den = 0 := by
  simp [roundUnits, roundDiv, gridExponent]

theorem ofRatio_eq_finite_iff {negative : Bool} {num den : Nat} {x : Finite} :
    ofRatio negative num den = .finite x ↔
      x.negative = negative ∧ x.units = roundUnits num den := by
  unfold ofRatio
  constructor
  · intro h
    split at h
    · cases h
      exact ⟨rfl, rfl⟩
    · cases h
  · rintro ⟨hs, hu⟩
    rw [dif_pos (hu ▸ x.representable.2)]
    exact congrArg finite (Finite.ext hs.symm hu.symm)

theorem ofRatio_mul_left {k : Nat} (hk : 0 < k) (negative : Bool) (num den : Nat) :
    ofRatio negative (k * num) (k * den) = ofRatio negative num den := by
  unfold ofRatio
  simp only [roundUnits_mul_left hk]

theorem eq_finite_of_toFinite? {x : Binary64} {y : Finite} (h : x.toFinite? = some y) :
    x = .finite y := by
  cases x with
  | finite z => rw [Option.some.inj h]
  | _ => cases h

/-! ### Whole numbers that are doubles -/

/-- A whole number that is a double. -/
def IsExact (n : Nat) : Prop := Representable (Nat.pow 2 unitExponent * n)

instance (n : Nat) : Decidable (IsExact n) := inferInstanceAs (Decidable (Representable _))

/-- A number of 53 bits with zeros after them is a double. -/
theorem isExact_mul_two_pow {n k : Nat} (hn : n ≤ Nat.pow 2 53) (hk : k ≤ 970) :
    IsExact (n * Nat.pow 2 k) := by
  have he : Nat.pow 2 unitExponent * (n * Nat.pow 2 k) = n * Nat.pow 2 (unitExponent + k) := by
    simp only [Nat.pow_eq, Nat.pow_add]
    rw [Nat.mul_left_comm]
  rw [IsExact, he]
  refine ⟨mul_two_pow_mod_grid hn, ?_⟩
  refine Nat.lt_of_le_of_lt (Nat.mul_le_mul_right _ hn) ?_
  simp only [Nat.pow_eq]
  rw [← Nat.pow_add]
  refine Nat.pow_lt_pow_right (by decide) ?_
  unfold unitExponent overflowExponent
  omega

/-- The powers of ten up to `10 ^ 22` are doubles. -/
theorem isExact_pow_ten {n : Nat} (hn : n ≤ 22) : IsExact (Nat.pow 10 n) := by
  have he : Nat.pow 10 n = Nat.pow 5 n * Nat.pow 2 n := by
    simp only [Nat.pow_eq]
    rw [← Nat.mul_pow]
  have h5 : Nat.pow 5 n ≤ Nat.pow 2 53 :=
    Nat.le_trans (Nat.pow_le_pow_right (by decide) hn) (by decide)
  rw [he]
  exact isExact_mul_two_pow h5 (by omega)

theorem roundUnits_of_isExact {n : Nat} (h : IsExact n) :
    roundUnits n 1 = Nat.pow 2 unitExponent * n :=
  roundUnits_eq Nat.one_pos (Nat.mul_one _).symm h

/-! ### Decimals -/

theorem ofDecimal_zero (negative : Bool) (e : Int) :
    ofDecimal negative 0 e = .finite (Finite.zero negative) := by
  cases e <;> rfl

/-- Without an exponent a decimal is a whole number. -/
theorem ofDecimal_exponent_zero (negative : Bool) (m : Nat) :
    ofDecimal negative m 0 = ofRatio negative m 1 := by
  by_cases hm : m = 0
  · subst hm
    rw [ofDecimal_zero]
    exact (ofRatio_eq_finite_iff.mpr ⟨rfl, (roundUnits_zero 1).symm⟩).symm
  · show ofDecimal negative m (.ofNat 0) = ofRatio negative m 1
    rw [ofDecimal, if_neg hm, if_neg (by decide)]
    exact congrArg (ofRatio negative · 1) (Nat.one_mul m)

theorem ofInt_natCast (m : Nat) : ofInt m = ofRatio false m 1 := by
  have h : decide ((m : Int) < 0) = false := by
    rw [decide_eq_false_iff_not]
    omega
  rw [ofInt, h, Int.natAbs_natCast]

theorem ofInt_neg_natCast {m : Nat} (hm : m ≠ 0) : ofInt (-m) = ofRatio true m 1 := by
  have h : decide (-(m : Int) < 0) = true := by
    rw [decide_eq_true_eq]
    omega
  rw [ofInt, h, Int.natAbs_neg, Int.natAbs_natCast]

/-! ### Scaling -/

/-- A double scaled by a power of ten, in steps. -/
def Finite.scale? (x : Finite) : Int → Option Finite
  | .ofNat n => x.multiplyPower? n
  | .negSucc n => x.divide? (n + 1)

/-- Scaling starts from the significand rounded to a double. -/
theorem exists_of_scaled? {m : Nat} {e : Int} {z : Finite} (h : scaled? m e = some z) :
    ∃ x : Finite, x.negative = false ∧ x.units = roundUnits m 1 ∧ x.scale? e = some z := by
  obtain ⟨x, hx, hz⟩ := Option.bind_eq_some_iff.mp h
  obtain ⟨hs, hu⟩ := ofRatio_eq_finite_iff.mp (eq_finite_of_toFinite? hx)
  refine ⟨x, hs, hu, ?_⟩
  cases e <;> exact hz

/-- A product with a power of ten is rounded once. -/
theorem exists_of_multiplyPower? {x z : Finite} {n : Nat} (hn : n ≤ maxPower)
    (h : x.multiplyPower? n = some z) :
    ∃ p : Finite, p.negative = false ∧ p.units = roundUnits (Nat.pow 10 n) 1 ∧
      x.mul p = .finite z := by
  rw [Finite.multiplyPower?, if_pos hn] at h
  obtain ⟨p, hp, hz⟩ := Option.bind_eq_some_iff.mp h
  obtain ⟨hs, hu⟩ := ofRatio_eq_finite_iff.mp (eq_finite_of_toFinite? hp)
  exact ⟨p, hs, hu, eq_finite_of_toFinite? hz⟩

/-- A quotient by a power of ten is rounded once. -/
theorem exists_of_dividePower? {x z : Finite} {n : Nat} (h : x.dividePower? n = some z) :
    ∃ p : Finite, p.negative = false ∧ p.units = roundUnits (Nat.pow 10 n) 1 ∧
      x.div p = .finite z := by
  obtain ⟨p, hp, hz⟩ := Option.bind_eq_some_iff.mp h
  obtain ⟨hs, hu⟩ := ofRatio_eq_finite_iff.mp (eq_finite_of_toFinite? hp)
  exact ⟨p, hs, hu, eq_finite_of_toFinite? hz⟩

/-- Up to `10 ^ 308` one division does it. -/
theorem Finite.divide?_eq {n : Nat} (hn : n ≤ maxPower) (x : Finite) :
    x.divide? n = x.dividePower? n := by
  have hsteps : (n - 1) / maxPower = 0 := Nat.div_eq_of_lt (by unfold maxPower at *; omega)
  simp [divide?, hsteps, divideSteps?]

theorem divideSteps?_of_units_eq_zero {x : Finite} (h : x.units = 0) (steps : Nat) :
    Finite.divideSteps? steps x = some x := by
  cases steps with
  | zero => rfl
  | succ steps => rw [Finite.divideSteps?, if_pos h]

/-- **Zero** stays zero. -/
theorem scaled?_significand_zero {e : Int} {z : Finite} (h : scaled? 0 e = some z) :
    z = Finite.zero false := by
  obtain ⟨x, hxs, hxu, hz⟩ := exists_of_scaled? h
  rw [roundUnits_zero] at hxu
  cases e with
  | ofNat n =>
    -- beyond the largest power a zero is not multiplied at all
    by_cases hn : n ≤ maxPower
    · obtain ⟨p, hps, -, hmul⟩ := exists_of_multiplyPower? hn hz
      rw [Finite.mul, hxu, Nat.mul_zero, hxs, hps] at hmul
      obtain ⟨hzs, hzu⟩ := ofRatio_eq_finite_iff.mp hmul
      exact Finite.ext hzs (hzu.trans (roundUnits_zero _))
    · rw [Finite.scale?, Finite.multiplyPower?, if_neg hn, if_pos hxu] at hz
      rw [← Option.some.inj hz]
      exact Finite.ext hxs hxu
  | negSucc n =>
    -- nor is it divided more than once
    rw [Finite.scale?, Finite.divide?, divideSteps?_of_units_eq_zero hxu] at hz
    obtain ⟨p, hps, -, hdiv⟩ := exists_of_dividePower? hz
    rw [Finite.div, hxu, hxs, hps] at hdiv
    obtain ⟨hzs, hzu⟩ := ofRatio_eq_finite_iff.mp hdiv
    exact Finite.ext hzs (hzu.trans (roundUnits_zero _))

/-- **Exact factors**: where the significand and the power of ten are doubles, only their
product or quotient is rounded. -/
theorem scaled?_of_isExact {m : Nat} {e : Int} {z : Finite} (hm : IsExact m) (he : e.natAbs ≤ 22)
    (h : scaled? m e = some z) : ofDecimal false m e = .finite z := by
  by_cases hne : m = 0
  · subst hne
    rw [ofDecimal_zero, scaled?_significand_zero h]
  obtain ⟨x, hxs, hxu, hz⟩ := exists_of_scaled? h
  rw [roundUnits_of_isExact hm] at hxu
  have hunit := two_pow_pos unitExponent
  cases e with
  | ofNat n =>
    have hn : n ≤ 22 := he
    obtain ⟨p, hps, hpu, hmul⟩ := exists_of_multiplyPower? (by unfold maxPower; omega) hz
    rw [roundUnits_of_isExact (isExact_pow_ten hn)] at hpu
    -- both factors are counted in units, and so is the product's denominator
    have hden : Nat.pow 2 (2 * unitExponent) =
        Nat.pow 2 unitExponent * (Nat.pow 2 unitExponent * 1) := by
      rw [Nat.mul_one]
      simp only [Nat.pow_eq, ← Nat.pow_add, Nat.two_mul]
    have hnum : p.units * x.units =
        Nat.pow 2 unitExponent * (Nat.pow 2 unitExponent * (Nat.pow 10 n * m)) := by
      rw [hpu, hxu]
      simp only [Nat.mul_assoc, Nat.mul_left_comm]
    rw [Finite.mul, hxs, hps, hnum, hden, ofRatio_mul_left hunit, ofRatio_mul_left hunit] at hmul
    rw [ofDecimal, if_neg hne, if_neg (by omega)]
    exact hmul
  | negSucc n =>
    have hn : n + 1 ≤ 22 := he
    rw [Finite.scale?, Finite.divide?_eq (by unfold maxPower; omega)] at hz
    obtain ⟨p, hps, hpu, hdiv⟩ := exists_of_dividePower? hz
    rw [roundUnits_of_isExact (isExact_pow_ten hn)] at hpu
    rw [Finite.div, hxs, hps, hxu, hpu, ofRatio_mul_left hunit] at hdiv
    rw [ofDecimal, if_neg hne, if_neg (by omega)]
    exact hdiv

/-- **No scaling**: without it only the significand is rounded. -/
theorem scaled?_exponent_zero {m : Nat} {z : Finite} (h : scaled? m 0 = some z) :
    ofDecimal false m 0 = .finite z := by
  obtain ⟨x, hxs, hxu, hz⟩ := exists_of_scaled? h
  obtain ⟨p, hps, hpu, hmul⟩ := exists_of_multiplyPower? (Nat.zero_le _) hz
  rw [roundUnits_of_isExact (isExact_pow_ten (Nat.zero_le _))] at hpu
  -- the product with one is the rounded significand, which is a double
  have hone : roundUnits (p.units * x.units) (Nat.pow 2 (2 * unitExponent)) = x.units := by
    refine roundUnits_eq (two_pow_pos _) ?_ x.representable
    rw [hpu, Nat.two_mul]
    simp only [Nat.pow_eq, Nat.pow_add, Nat.pow_zero, Nat.mul_one]
    rw [← Nat.mul_assoc, Nat.mul_comm]
  rw [Finite.mul, hxs, hps] at hmul
  obtain ⟨hzs, hzu⟩ := ofRatio_eq_finite_iff.mp hmul
  rw [ofDecimal_exponent_zero]
  exact ofRatio_eq_finite_iff.mpr ⟨hzs, by rw [hzu, hone, hxu]⟩

/-! ### Signs -/

theorem negative_of_dividePower? {x z : Finite} {n : Nat} (hx : x.negative = false)
    (h : x.dividePower? n = some z) : z.negative = false := by
  obtain ⟨p, hps, -, hdiv⟩ := exists_of_dividePower? h
  rw [Finite.div, hx, hps] at hdiv
  exact (ofRatio_eq_finite_iff.mp hdiv).1

theorem negative_of_divideSteps? {steps : Nat} {x z : Finite} (hx : x.negative = false)
    (h : Finite.divideSteps? steps x = some z) : z.negative = false := by
  induction steps generalizing x with
  | zero =>
    rw [← Option.some.inj h]
    exact hx
  | succ steps ih =>
    rw [Finite.divideSteps?] at h
    split at h
    · rw [← Option.some.inj h]
      exact hx
    · obtain ⟨y, hy, hz⟩ := Option.bind_eq_some_iff.mp h
      exact ih (negative_of_dividePower? hx hy) hz

/-- No step changes the sign. -/
theorem negative_of_scaled? {m : Nat} {e : Int} {z : Finite} (h : scaled? m e = some z) :
    z.negative = false := by
  obtain ⟨x, hxs, -, hz⟩ := exists_of_scaled? h
  cases e with
  | ofNat n =>
    by_cases hn : n ≤ maxPower
    · obtain ⟨p, hps, -, hmul⟩ := exists_of_multiplyPower? hn hz
      rw [Finite.mul, hxs, hps] at hmul
      exact (ofRatio_eq_finite_iff.mp hmul).1
    · rw [Finite.scale?, Finite.multiplyPower?, if_neg hn] at hz
      split at hz
      · rw [← Option.some.inj hz]
        exact hxs
      · cases hz
  | negSucc n =>
    obtain ⟨y, hy, hz⟩ := Option.bind_eq_some_iff.mp hz
    exact negative_of_dividePower? (negative_of_divideSteps? hxs hy) hz

/-- A double of either sign, known without its sign. -/
def IsSigned (f : Bool → Binary64) : Prop :=
  (∀ negative, f negative = .infinite negative) ∨
    ∃ units, ∃ h : Representable units, ∀ negative, f negative = .finite ⟨negative, units, h⟩

theorem isSigned_zero : IsSigned fun negative => .finite (Finite.zero negative) :=
  Or.inr ⟨0, representable_zero, fun _ => rfl⟩

/-- Rounding a quotient goes by its absolute value. -/
theorem isSigned_ofRatio (num den : Nat) : IsSigned fun negative => ofRatio negative num den := by
  by_cases h : roundUnits num den < Nat.pow 2 overflowExponent
  · refine Or.inr ⟨roundUnits num den, ⟨roundUnits_mod num den, h⟩, fun negative => ?_⟩
    exact ofRatio_eq_finite_iff.mpr ⟨rfl, rfl⟩
  · refine Or.inl fun negative => ?_
    unfold ofRatio
    exact dif_neg h

theorem isSigned_ofDecimal (m : Nat) (e : Int) :
    IsSigned fun negative => ofDecimal negative m e := by
  by_cases hm : m = 0
  · simp only [ofDecimal, if_pos hm]
    exact isSigned_zero
  · cases e with
    | ofNat n =>
      simp only [ofDecimal, if_neg hm]
      by_cases hn : 400 < n
      · simp only [if_pos hn]
        exact Or.inl fun _ => rfl
      · simp only [if_neg hn]
        exact isSigned_ofRatio _ _
    | negSucc n =>
      simp only [ofDecimal, if_neg hm]
      by_cases hn : m.log2 + 400 ≤ n
      · simp only [if_pos hn]
        exact isSigned_zero
      · simp only [if_neg hn]
        exact isSigned_ofRatio _ _

/-- Every double but NaN is equal to itself. -/
theorem IsSigned.compare?_self {f : Bool → Binary64} (h : IsSigned f) (negative : Bool) :
    (f negative).compare? (f negative) = some .eq := by
  rcases h with h | ⟨units, hr, h⟩
  · rw [h]
    cases negative <;> rfl
  · rw [h, compare?_finite]
    simp

/-- **Signs may be left out**: a double is equal to a decimal of the same sign exactly if
the nearest double, the sign apart, is that double. -/
theorem compare?_ofDecimal {x : Finite} (hx : x.negative = false) (negative : Bool) (m : Nat)
    (e : Int) :
    (finite (if negative then x.neg else x)).compare? (ofDecimal negative m e) = some .eq ↔
      some (finite x) = some (ofDecimal false m e) := by
  rcases isSigned_ofDecimal m e with h | ⟨units, hr, h⟩
  · simp only at h
    rw [h, h]
    cases negative <;> simp [compare?]
  · simp only at h
    rw [h, h]
    -- without signs two doubles are equal if their units are
    have hunits : (finite x = finite ⟨false, units, hr⟩) ↔ x.units = units := by
      constructor
      · intro he
        cases he
        rfl
      · intro he
        exact congrArg finite (Finite.ext hx he)
    rw [compare?_finite, Option.some.injEq, Option.some.injEq, Std.compare_eq_iff_eq, hunits]
    have hx' : x.signedUnits = x.units := by
      rw [Finite.signedUnits, hx]
      rfl
    cases negative with
    | false =>
      show x.signedUnits = (units : Int) ↔ _
      omega
    | true =>
      show x.neg.signedUnits = -(units : Int) ↔ _
      rw [Finite.signedUnits_neg]
      omega

end Binary64

end JsonSieve
