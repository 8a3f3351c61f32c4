import Mathlib.Algebra.Order.Field.Rat
import Mathlib.Order.Monotone.Odd
import Mathlib.Tactic.Positivity
import JsonSieve.Proofs.Binary64.Exact
import JsonSieve.Proofs.Evaluation.Judgement

/-!
# Rounding keeps the order

A rational number goes to the double nearest to it, and so to a place on the line
(`JsonSieve.Binary64.nearestPlace`). Rounding may make two numbers equal, but it never
changes their order (`JsonSieve.Binary64.nearestPlace_mono`), overflow and underflow
included, and it leaves the integers up to `2 ^ 53` where they are
(`JsonSieve.Binary64.nearestPlace_intCast`).

Two quotients on one grid are rounded to multiples of one spacing, and then this is about
natural numbers. On different grids a power of two lies between them: the finer grid ends
at it (`JsonSieve.Binary64.roundUnits_le`) and nothing on the coarser one is rounded
below it (`JsonSieve.Binary64.le_roundUnits`).

Every double that is computed by rounding once has the place of the exact value, in
particular integers and decimals (`JsonSieve.Binary64.place?_ofInt`,
`JsonSieve.Binary64.place?_ofDecimal`). For decimals the exponents that are settled by
size alone have to be looked at, and nothing of them is left: a decimal depends on its
value only (`JsonSieve.Binary64.ofDecimal_congr`).
-/

namespace JsonSieve

namespace Binary64

/-! ### One grid -/

theorem roundDiv_mono {num num' : Nat} (h : num ≤ num') (den : Nat) :
    roundDiv num den ≤ roundDiv num' den := by
  rcases Nat.lt_or_eq_of_le (Nat.div_le_div_right (c := den) h) with hlt | heq
  · calc roundDiv num den ≤ num / den + 1 := roundDiv_le num den
      _ ≤ num' / den := hlt
      _ ≤ roundDiv num' den := div_le_roundDiv num' den
  · -- with the same whole part it is the rest that grows
    have hnum := Nat.div_add_mod num den
    have hnum' := Nat.div_add_mod num' den
    rw [← heq] at hnum'
    have hrest : num % den ≤ num' % den := by omega
    simp only [roundDiv, ← heq]
    split_ifs <;> omega

/-! ### Powers of two between grids -/

/-- The quotient in whole units, which decides the grid. -/
def wholeUnits (num den : Nat) : Nat := Nat.pow 2 unitExponent * num / den

theorem two_pow_add (j k : Nat) : 2 ^ (j + k) = Nat.pow 2 j * 2 ^ k := pow_add 2 j k

/-- A quotient is not rounded beyond the end of its grid, -/
theorem roundUnits_le (num den : Nat) :
    roundUnits num den ≤ 2 ^ (53 + gridExponent (wholeUnits num den)) := by
  rw [two_pow_add]
  exact Nat.mul_le_mul_right _ (roundDiv_grid_le _ den)

/-- nor below a power of two. -/
theorem le_roundUnits {num den k : Nat} (h : 2 ^ k ≤ wholeUnits num den) :
    2 ^ k ≤ roundUnits num den := by
  have hne : wholeUnits num den ≠ 0 := by
    have := Nat.two_pow_pos k
    omega
  have hlog : 2 ^ k ≤ 2 ^ (wholeUnits num den).log2 :=
    Nat.pow_le_pow_right (by decide) ((Nat.le_log2 hne).mpr h)
  -- the leading power of two is a multiple of the spacing, and so is not lost
  have hgrid : gridExponent (wholeUnits num den) ≤ (wholeUnits num den).log2 := Nat.sub_le _ _
  have hsplit : 2 ^ (wholeUnits num den).log2 =
      2 ^ ((wholeUnits num den).log2 - gridExponent (wholeUnits num den)) *
        2 ^ gridExponent (wholeUnits num den) := by
    rw [← pow_add, Nat.sub_add_cancel hgrid]
  calc 2 ^ k ≤ 2 ^ (wholeUnits num den).log2 := hlog
    _ ≤ wholeUnits num den / 2 ^ gridExponent (wholeUnits num den) *
          2 ^ gridExponent (wholeUnits num den) := by
        conv => lhs; rw [hsplit]
        refine Nat.mul_le_mul_right _ ?_
        rw [Nat.le_div_iff_mul_le (Nat.two_pow_pos _), ← hsplit]
        exact Nat.log2_self_le hne
    _ ≤ roundUnits num den := by
        refine Nat.mul_le_mul_right _ ?_
        rw [wholeUnits, Nat.div_div_eq_div_mul]
        exact div_le_roundDiv _ _

theorem log2_mono {m n : Nat} (h : m ≤ n) : m.log2 ≤ n.log2 := by
  rcases Nat.eq_zero_or_pos m with rfl | hpos
  · exact Nat.zero_le _
  · exact (Nat.le_log2 (by omega)).mpr ((Nat.log2_self_le (by omega)).trans h)

theorem roundUnits_mono_left {num num' : Nat} (h : num ≤ num') (den : Nat) :
    roundUnits num den ≤ roundUnits num' den := by
  have hscaled : Nat.pow 2 unitExponent * num ≤ Nat.pow 2 unitExponent * num' :=
    Nat.mul_le_mul_left _ h
  have hwhole : wholeUnits num den ≤ wholeUnits num' den := Nat.div_le_div_right hscaled
  have hlog : (wholeUnits num den).log2 ≤ (wholeUnits num' den).log2 := log2_mono hwhole
  by_cases hgrid : gridExponent (wholeUnits num den) = gridExponent (wholeUnits num' den)
  · have hspacing : roundUnits num den = roundDiv (Nat.pow 2 unitExponent * num)
        (den * Nat.pow 2 (gridExponent (wholeUnits num' den))) *
          Nat.pow 2 (gridExponent (wholeUnits num' den)) := by
      rw [← hgrid]
      rfl
    rw [hspacing]
    exact Nat.mul_le_mul_right _ (roundDiv_mono hscaled _)
  · have hpos : wholeUnits num' den ≠ 0 := by
      intro hzero
      rw [hzero] at hwhole hgrid
      rw [Nat.le_zero.mp hwhole] at hgrid
      exact hgrid rfl
    have hlt : 53 + gridExponent (wholeUnits num den) ≤ (wholeUnits num' den).log2 := by
      unfold gridExponent at *
      omega
    calc roundUnits num den ≤ 2 ^ (53 + gridExponent (wholeUnits num den)) := roundUnits_le _ _
      _ ≤ 2 ^ (wholeUnits num' den).log2 := Nat.pow_le_pow_right (by decide) hlt
      _ ≤ roundUnits num' den := le_roundUnits (Nat.log2_self_le hpos)

/-- **A quotient that is not larger is not rounded to a larger double.** -/
theorem roundUnits_mono {num den num' den' : Nat} (hden : 0 < den) (hden' : 0 < den')
    (h : (num : ℚ) / den ≤ num' / den') : roundUnits num den ≤ roundUnits num' den' := by
  rw [div_le_div_iff₀ (by exact_mod_cast hden) (by exact_mod_cast hden')] at h
  have hcross : den' * num ≤ den * num' := by
    rw [Nat.mul_comm den', Nat.mul_comm den]
    exact_mod_cast h
  rw [← roundUnits_mul_left hden' num den, ← roundUnits_mul_left hden num' den',
    Nat.mul_comm den' den]
  exact roundUnits_mono_left hcross _

/-- Rounding depends on the quotient alone. -/
theorem roundUnits_congr {num den num' den' : Nat} (hden : 0 < den) (hden' : 0 < den')
    (h : (num : ℚ) / den = num' / den') : roundUnits num den = roundUnits num' den' :=
  Nat.le_antisymm (roundUnits_mono hden hden' h.le) (roundUnits_mono hden' hden h.ge)

theorem ofRatio_congr {num den num' den' : Nat} (hden : 0 < den) (hden' : 0 < den')
    (h : (num : ℚ) / den = num' / den') (negative : Bool) :
    ofRatio negative num den = ofRatio negative num' den' := by
  unfold ofRatio
  simp only [roundUnits_congr hden hden' h]

/-! ### Overflow and underflow -/

/-- From `2 ^ 1024` on a quotient overflows. -/
theorem ofRatio_of_overflow {n k : Nat} (hk : 1024 ≤ k) (h : 2 ^ k ≤ n) (negative : Bool) :
    ofRatio negative n 1 = .infinite negative := by
  have hwhole : 2 ^ (unitExponent + k) ≤ wholeUnits n 1 := by
    rw [wholeUnits, Nat.div_one, two_pow_add]
    exact Nat.mul_le_mul_left _ h
  have hpow : ∀ {i j : Nat}, i ≤ j → Nat.pow 2 i ≤ 2 ^ j := Nat.pow_le_pow_right (by decide)
  have hoverflow : Nat.pow 2 overflowExponent ≤ 2 ^ (unitExponent + k) :=
    hpow (Nat.add_le_add_left hk unitExponent)
  unfold ofRatio
  exact dif_neg (Nat.not_lt_of_le (hoverflow.trans (le_roundUnits hwhole)))

/-- Up to half a unit a quotient is rounded to zero. -/
theorem ofRatio_of_underflow {num den : Nat} (h : 2 * (2 ^ unitExponent * num) ≤ den)
    (negative : Bool) : ofRatio negative num den = .finite (Finite.zero negative) := by
  suffices hround : roundUnits num den = 0 from ofRatio_eq_finite_iff.mpr ⟨rfl, hround.symm⟩
  rcases Nat.eq_zero_or_pos num with rfl | hpos
  · exact roundUnits_zero den
  have hscaled : 0 < 2 ^ unitExponent * num := Nat.mul_pos (Nat.two_pow_pos _) hpos
  have hlt : 2 ^ unitExponent * num < den := by omega
  have hspacing : Nat.pow 2 (gridExponent (2 ^ unitExponent * num / den)) = 1 := by
    rw [Nat.div_eq_of_lt hlt]
    rfl
  simp only [roundUnits, Nat.pow_eq] at hspacing ⊢
  rw [hspacing, Nat.mul_one, Nat.mul_one, roundDiv, Nat.div_eq_of_lt hlt, Nat.mod_eq_of_lt hlt]
  split_ifs <;> omega

/-! ### Decimals -/

theorem ofRatio_zero (negative : Bool) (den : Nat) :
    ofRatio negative 0 den = .finite (Finite.zero negative) :=
  ofRatio_eq_finite_iff.mpr ⟨rfl, (roundUnits_zero den).symm⟩

theorem two_pow_le_ten_pow (e : Nat) : 2 ^ (3 * e) ≤ 10 ^ e := by
  rw [pow_mul]
  exact Nat.pow_le_pow_left (by decide) e

/-- A decimal without digits after the point is a whole number, however large, -/
theorem ofDecimal_ofNat (negative : Bool) (m e : Nat) :
    ofDecimal negative m (.ofNat e) = ofRatio negative (10 ^ e * m) 1 := by
  by_cases hm : m = 0
  · rw [hm, ofDecimal_zero, Nat.mul_zero, ofRatio_zero]
  by_cases he : 400 < e
  · rw [ofDecimal, if_neg hm, if_pos he]
    refine (ofRatio_of_overflow (by omega : 1024 ≤ 3 * e) ?_ negative).symm
    calc 2 ^ (3 * e) ≤ 10 ^ e := two_pow_le_ten_pow e
      _ ≤ 10 ^ e * m := Nat.le_mul_of_pos_right _ (Nat.pos_of_ne_zero hm)
  · rw [ofDecimal, if_neg hm, if_neg he]
    rfl

/-- and another one is a quotient, however small. -/
theorem ofDecimal_negSucc (negative : Bool) (m e : Nat) :
    ofDecimal negative m (.negSucc e) = ofRatio negative m (10 ^ (e + 1)) := by
  by_cases hm : m = 0
  · rw [hm, ofDecimal_zero, ofRatio_zero]
  by_cases he : m.log2 + 400 ≤ e
  · rw [ofDecimal, if_neg hm, if_pos he]
    refine (ofRatio_of_underflow ?_ negative).symm
    have hlt : m ≤ 2 ^ (e - 399) :=
      (Nat.lt_log2_self.trans_le (Nat.pow_le_pow_right (by decide) (by omega))).le
    calc 2 * (2 ^ unitExponent * m)
        ≤ 2 * (2 ^ unitExponent * 2 ^ (e - 399)) :=
          Nat.mul_le_mul_left _ (Nat.mul_le_mul_left _ hlt)
      _ = 2 ^ (1 + unitExponent + (e - 399)) := by rw [pow_add, pow_add, pow_one, Nat.mul_assoc]
      _ ≤ 2 ^ (3 * (e + 1)) := Nat.pow_le_pow_right (by decide) (by unfold unitExponent; omega)
      _ ≤ 10 ^ (e + 1) := two_pow_le_ten_pow (e + 1)
  · rw [ofDecimal, if_neg hm, if_neg he]
    rfl

/-- A decimal is a quotient, rounded once. -/
theorem exists_ofDecimal_eq_ofRatio (m : Nat) (e : Int) :
    ∃ num den : Nat, 0 < den ∧ (m : ℚ) * 10 ^ e = num / den ∧
      ∀ negative, ofDecimal negative m e = ofRatio negative num den := by
  cases e with
  | ofNat e =>
    refine ⟨10 ^ e * m, 1, Nat.one_pos, ?_, fun negative => ofDecimal_ofNat negative m e⟩
    rw [Int.ofNat_eq_natCast, zpow_natCast]
    push_cast
    rw [div_one, mul_comm]
  | negSucc e =>
    refine ⟨m, 10 ^ (e + 1), Nat.pow_pos (by decide), ?_,
      fun negative => ofDecimal_negSucc negative m e⟩
    rw [zpow_negSucc, ← div_eq_mul_inv]
    push_cast
    rfl

/-- **A decimal depends on its value alone.** -/
theorem ofDecimal_congr {m m' : Nat} {e e' : Int} (h : (m : ℚ) * 10 ^ e = m' * 10 ^ e')
    (negative : Bool) : ofDecimal negative m e = ofDecimal negative m' e' := by
  obtain ⟨num, den, hden, hvalue, hdecimal⟩ := exists_ofDecimal_eq_ofRatio m e
  obtain ⟨num', den', hden', hvalue', hdecimal'⟩ := exists_ofDecimal_eq_ofRatio m' e'
  rw [hdecimal, hdecimal']
  exact ofRatio_congr hden hden' (by rw [← hvalue, h, hvalue']) negative

/-! ### The line -/

/-- **The place of the double nearest to a number.** -/
def nearestPlace (q : ℚ) : Int :=
  q.num.sign * min (roundUnits q.num.natAbs q.den) (Nat.pow 2 overflowExponent)

theorem nearestPlace_neg (q : ℚ) : nearestPlace (-q) = -nearestPlace q := by
  rw [nearestPlace, nearestPlace, Rat.neg_num, Rat.neg_den, Int.sign_neg, Int.natAbs_neg, neg_mul]

theorem nearestPlace_of_nonneg {q : ℚ} (h : 0 ≤ q) :
    nearestPlace q = min (roundUnits q.num.natAbs q.den) (Nat.pow 2 overflowExponent) := by
  rcases h.lt_or_eq with hpos | rfl
  · rw [nearestPlace, Int.sign_eq_one_of_pos (Rat.num_pos.mpr hpos), one_mul]
  · rw [nearestPlace, Rat.num_zero, Int.sign_zero, zero_mul, Int.natAbs_zero, roundUnits_zero,
      Nat.zero_min, Nat.cast_zero]

theorem natAbs_num_div_den {q : ℚ} (h : 0 ≤ q) : (q.num.natAbs : ℚ) / q.den = q := by
  rw [Nat.cast_natAbs, abs_of_nonneg (Rat.num_nonneg.mpr h), Rat.num_div_den]

/-- The place of a quotient. -/
theorem nearestPlace_div (num : Nat) {den : Nat} (hden : 0 < den) :
    nearestPlace ((num : ℚ) / den) = min (roundUnits num den) (Nat.pow 2 overflowExponent) := by
  have hnonneg : (0 : ℚ) ≤ num / den := by positivity
  have hquotient := natAbs_num_div_den hnonneg
  rw [nearestPlace_of_nonneg hnonneg, roundUnits_congr (Rat.den_pos _) hden hquotient]

/-- **Rounding keeps the order**, -/
theorem nearestPlace_mono {p q : ℚ} (hle : p ≤ q) : nearestPlace p ≤ nearestPlace q := by
  refine monotone_of_odd_of_monotoneOn_nonneg nearestPlace_neg (fun p hp q hq h => ?_) hle
  have hround : roundUnits p.num.natAbs p.den ≤ roundUnits q.num.natAbs q.den := by
    refine roundUnits_mono p.den_pos q.den_pos ?_
    rwa [natAbs_num_div_den hp, natAbs_num_div_den hq]
  rw [nearestPlace_of_nonneg hp, nearestPlace_of_nonneg hq]
  exact_mod_cast min_le_min_right _ hround

/-- so that numbers with places of their own are in the order of these. -/
theorem lt_of_nearestPlace_lt {p q : ℚ} (h : nearestPlace p < nearestPlace q) : p < q :=
  lt_of_not_ge fun hle => absurd (nearestPlace_mono hle) (not_le_of_gt h)

/-! ### Places of doubles -/

/-- A number of either sign. -/
def signed (negative : Bool) (a : ℚ) : ℚ := if negative then -a else a

theorem nearestPlace_signed (negative : Bool) (a : ℚ) :
    nearestPlace (signed negative a) = if negative then -nearestPlace a else nearestPlace a := by
  cases negative with
  | false => rfl
  | true => exact nearestPlace_neg a

theorem place?_ofRatio (negative : Bool) (num : Nat) {den : Nat} (hden : 0 < den) :
    (ofRatio negative num den).place? = some (nearestPlace (signed negative (num / den))) := by
  rw [nearestPlace_signed, nearestPlace_div num hden]
  unfold ofRatio
  split
  · rename_i h
    rw [min_eq_left (Nat.le_of_lt h)]
    rfl
  · rename_i h
    rw [min_eq_right (Nat.le_of_not_lt h)]
    cases negative <;> rfl

/-- **An integer lies at its nearest place**, -/
theorem place?_ofInt (n : Int) : (ofInt n).place? = some (nearestPlace n) := by
  have hn : signed (decide (n < 0)) ((n.natAbs : ℚ) / (1 : Nat)) = n := by
    rw [Nat.cast_one, div_one, Nat.cast_natAbs]
    by_cases h : n < 0
    · rw [signed, if_pos (decide_eq_true h), abs_of_neg h]
      push_cast
      exact neg_neg _
    · rw [signed, if_neg (by simpa using h), abs_of_nonneg (Int.not_lt.mp h)]
  rw [ofInt, place?_ofRatio _ _ Nat.one_pos, hn]

/-- The exact value of a decimal. -/
def decimalValue (negative : Bool) (m : Nat) (e : Int) : ℚ := signed negative (m * 10 ^ e)

/-- and so does a decimal. -/
theorem place?_ofDecimal (negative : Bool) (m : Nat) (e : Int) :
    (ofDecimal negative m e).place? = some (nearestPlace (decimalValue negative m e)) := by
  obtain ⟨num, den, hden, hvalue, hdecimal⟩ := exists_ofDecimal_eq_ofRatio m e
  rw [hdecimal, place?_ofRatio _ _ hden, decimalValue, hvalue]

/-- **Integers up to `2 ^ 53` stay where they are.** -/
theorem nearestPlace_intCast {n : Int} (h : n.natAbs ≤ 2 ^ 53) :
    nearestPlace n = Nat.pow 2 unitExponent * n := by
  have hexact : IsExact n.natAbs := by
    have := @isExact_mul_two_pow n.natAbs 0 h (Nat.zero_le _)
    rwa [Nat.pow_eq, pow_zero, Nat.mul_one] at this
  rw [nearestPlace, Rat.num_intCast, Rat.den_intCast, roundUnits_of_isExact hexact,
    min_eq_left (Nat.le_of_lt hexact.2), Nat.cast_mul, mul_left_comm, Int.sign_mul_natAbs]

end Binary64

end JsonSieve
