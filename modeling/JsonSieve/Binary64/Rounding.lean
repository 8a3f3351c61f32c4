import JsonSieve.Binary64.Basic

/-!
# Rounding to doubles

Every double that the library computes is a quotient of two natural numbers,
rounded once to the nearest double, a tie going to the neighbour whose last bit
is even (`Binary64.ofRatio`). The quotient is first taken to the grid that its
own size calls for, and the result is a double again because rounding up to the
next power of two only coarsens the grid (`Binary64.roundUnits_mod`).

Products, quotients and decimals are then exact quotients of natural numbers,
rounded once: `Binary64.Finite.mul`, `Binary64.Finite.div`,
`Binary64.ofDecimal`.
-/

namespace JsonSieve

namespace Binary64

/-! ### Rounding a quotient to a natural number -/

/-- `num / den` rounded to the nearest natural number, a half to the even
one. -/
def roundDiv (num den : Nat) : Nat :=
  let whole := num / den
  let rest := num % den
  if 2 * rest < den then whole
  else if den < 2 * rest then whole + 1
  else whole + whole % 2

theorem roundDiv_le (num den : Nat) : roundDiv num den ≤ num / den + 1 := by
  unfold roundDiv
  dsimp only
  split
  · omega
  · split <;> omega

theorem div_le_roundDiv (num den : Nat) : num / den ≤ roundDiv num den := by
  unfold roundDiv
  dsimp only
  split
  · omega
  · split <;> omega

/-! ### Rounding a quotient to the grid of doubles -/

/-- The number of units of the double nearest to `num / den`, without regard to
overflow. -/
def roundUnits (num den : Nat) : Nat :=
  let scaled := Nat.pow 2 unitExponent * num
  let spacing := Nat.pow 2 (gridExponent (scaled / den))
  roundDiv scaled (den * spacing) * spacing

/-- On its grid a quotient has at most 53 bits. -/
theorem roundDiv_grid_le (scaled den : Nat) :
    roundDiv scaled (den * Nat.pow 2 (gridExponent (scaled / den))) ≤ Nat.pow 2 53 := by
  refine Nat.le_trans (roundDiv_le _ _) ?_
  rw [← Nat.div_div_eq_div_mul]
  apply Nat.succ_le_of_lt
  apply Nat.div_lt_of_lt_mul
  simp only [Nat.pow_eq]
  rw [← Nat.pow_add]
  refine Nat.lt_of_lt_of_le Nat.lt_log2_self (Nat.pow_le_pow_right (by decide) ?_)
  unfold gridExponent
  omega

/-- A multiple of a grid spacing with at most 53 bits is on its own grid. -/
theorem mul_two_pow_mod_grid {v k : Nat} (hv : v ≤ Nat.pow 2 53) :
    v * Nat.pow 2 k % Nat.pow 2 (gridExponent (v * Nat.pow 2 k)) = 0 := by
  simp only [Nat.pow_eq] at hv ⊢
  rcases Nat.lt_or_eq_of_le hv with h | rfl
  · rcases Nat.eq_zero_or_pos v with rfl | hpos
    · simp
    · have hne := Nat.ne_of_gt (Nat.mul_pos hpos (Nat.two_pow_pos k))
      have hlog := Nat.mul_lt_mul_of_pos_right h (Nat.two_pow_pos k)
      rw [← Nat.pow_add, ← Nat.log2_lt hne] at hlog
      refine Nat.mod_eq_zero_of_dvd
        (Nat.dvd_trans (Nat.pow_dvd_pow 2 ?_) (Nat.dvd_mul_left _ _))
      unfold gridExponent
      omega
  · rw [← Nat.pow_add]
    refine Nat.mod_eq_zero_of_dvd (Nat.pow_dvd_pow 2 ?_)
    unfold gridExponent
    rw [Nat.log2_two_pow]
    omega

theorem roundUnits_mod (num den : Nat) :
    roundUnits num den % Nat.pow 2 (gridExponent (roundUnits num den)) = 0 :=
  mul_two_pow_mod_grid (roundDiv_grid_le _ _)

/-- The double nearest to `num / den` with the given sign: infinite from halfway
between the largest finite double and `2 ^ 1024` on. It is irreducible so that
no power is computed where a double is only passed on. -/
@[irreducible] def ofRatio (negative : Bool) (num den : Nat) : Binary64 :=
  if h : roundUnits num den < Nat.pow 2 overflowExponent then
    .finite ⟨negative, roundUnits num den, roundUnits_mod num den, h⟩
  else .infinite negative

/-! ### Arithmetic, rounded once -/

/-- The double nearest to an integer. -/
def ofInt (n : Int) : Binary64 := ofRatio (decide (n < 0)) n.natAbs 1

/-- The product, rounded. -/
def Finite.mul (x y : Finite) : Binary64 :=
  ofRatio (x.negative != y.negative) (y.units * x.units) (Nat.pow 2 (2 * unitExponent))

/-- The quotient, rounded; the divisor is meant to be nonzero. -/
def Finite.div (x y : Finite) : Binary64 :=
  ofRatio (x.negative != y.negative) x.units y.units

/-- The double nearest to `mantissa * 10 ^ exponent`. Exponents too large or too
small to matter are settled by size alone: `10 ^ 400` is beyond every double,
and what is below `10 ^ -399` rounds to zero. -/
def ofDecimal (negative : Bool) (mantissa : Nat) (exponent : Int) : Binary64 :=
  if mantissa = 0 then .finite (Finite.zero negative)
  else match exponent with
    | .ofNat e =>
      if 400 < e then .infinite negative else ofRatio negative (Nat.pow 10 e * mantissa) 1
    | .negSucc e =>
      if mantissa.log2 + 400 ≤ e then .finite (Finite.zero negative)
      else ofRatio negative mantissa (Nat.pow 10 (e + 1))

end Binary64

end JsonSieve
