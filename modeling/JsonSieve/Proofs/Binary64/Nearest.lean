import Mathlib.Tactic.Linarith
import JsonSieve.Proofs.Binary64.Monotone

/-!
# Rounding goes to the nearest double

What is computed by rounding once is the nearest double, and of two that are equally near
the one whose last bit is zero (`JsonSieve.Binary64.IsNearest`). Overflow is no exception:
the infinities have their places at the first power of two that is too large, and a number
goes to an infinity exactly if this place is the nearest one.

Rounding goes to a multiple of the spacing that the size of the number calls for. Doubles
that are on a finer grid only are below the power of two where the grid of the number begins,
so that this power of two, which is a multiple of the spacing, is nearer than they are
(`JsonSieve.Binary64.roundUnits_nearest`).
-/

namespace JsonSieve

namespace Binary64

/-! ### Nearest multiples -/

/-- The last of 53 bits is zero. -/
def EndsEven (units : Nat) : Prop := 2 * Nat.pow 2 (gridExponent units) ∣ units

/-- How far a number is from a multiple. -/
def distance (num multiple : Nat) : Nat := ((num : Int) - (multiple : Int)).natAbs

/-- **No multiple is nearer than the one that is chosen**, and if another one is as near,
the chosen one is even. -/
theorem roundDiv_nearest (num : Nat) {den k : Nat} (hden : 0 < den) (hk : k ≠ roundDiv num den) :
    distance num (roundDiv num den * den) < distance num (k * den) ∨
      distance num (roundDiv num den * den) = distance num (k * den) ∧
        roundDiv num den % 2 = 0 := by
  have hrest := Nat.mod_lt num hden
  have hnum := Nat.div_add_mod' num den
  have hnext : (num / den + 1) * den = num / den * den + den := Nat.succ_mul _ _
  have hne : k * den ≠ roundDiv num den * den := fun h =>
    hk (Nat.eq_of_mul_eq_mul_right hden h)
  -- where the other multiple is, seen from the two around the number
  have hother : k * den ≤ num / den * den ∨ num / den * den + den ≤ k * den := by
    rcases Nat.lt_or_ge (num / den) k with h | h
    · exact Or.inr (hnext ▸ Nat.mul_le_mul_right den h)
    · exact Or.inl (Nat.mul_le_mul_right den h)
  have hchosen : roundDiv num den = num / den ∧ 2 * (num % den) ≤ den ∧
        (2 * (num % den) = den → num / den % 2 = 0) ∨
      roundDiv num den = num / den + 1 ∧ den ≤ 2 * (num % den) ∧
        (2 * (num % den) = den → num / den % 2 = 1) := by
    simp only [roundDiv]
    split_ifs <;> omega
  unfold distance
  rcases hchosen with ⟨h, hle, heven⟩ | ⟨h, hle, heven⟩ <;> rw [h] at hne ⊢
  · omega
  · rw [hnext] at hne ⊢
    omega

theorem distance_roundDiv_le (num : Nat) {den : Nat} (hden : 0 < den) (k : Nat) :
    distance num (roundDiv num den * den) ≤ distance num (k * den) := by
  by_cases hk : k = roundDiv num den
  · exact Nat.le_of_eq (by rw [hk])
  · rcases roundDiv_nearest num hden hk with hlt | ⟨heq, -⟩
    · exact hlt.le
    · exact heq.le

/-! ### Nearest doubles -/

/-- On its grid an even multiple ends with a zero. -/
theorem endsEven_mul {r g : Nat} (hr : r ≤ Nat.pow 2 53) (heven : r % 2 = 0) :
    EndsEven (r * Nat.pow 2 g) := by
  have hgrid : ∀ {j : Nat}, j ≤ g → 2 * Nat.pow 2 j ∣ r * Nat.pow 2 g := fun h =>
    Nat.mul_dvd_mul (Nat.dvd_of_mod_eq_zero heven) (Nat.pow_dvd_pow 2 h)
  rcases Nat.lt_or_eq_of_le hr with hlt | rfl
  · refine hgrid ?_
    rcases Nat.eq_zero_or_pos r with rfl | hpos
    · simp [gridExponent]
    have hne : r * 2 ^ g ≠ 0 := Nat.ne_of_gt (Nat.mul_pos hpos (Nat.two_pow_pos g))
    have hlog : (r * 2 ^ g).log2 < 53 + g := by
      rw [Nat.log2_lt hne, two_pow_add]
      exact Nat.mul_lt_mul_of_pos_right hlt (Nat.two_pow_pos g)
    have hgoal : gridExponent (r * Nat.pow 2 g) = (r * 2 ^ g).log2 - 52 := rfl
    omega
  · -- rounded up to the power of two that begins the next grid
    have hpow : Nat.pow 2 53 * Nat.pow 2 g = 2 ^ (53 + g) := (two_pow_add 53 g).symm
    have hdouble : 2 * Nat.pow 2 (53 + g - 52) = 2 ^ (53 + g - 52 + 1) := (pow_succ' 2 _).symm
    rw [hpow, EndsEven, gridExponent, Nat.log2_two_pow, hdouble]
    exact Nat.pow_dvd_pow 2 (by omega)

/-- A coarse grid begins at a power of two, -/
theorem two_pow_le_of_gridExponent {units g : Nat} (hpos : 0 < g) (h : gridExponent units = g) :
    2 ^ (52 + g) ≤ units := by
  have hlog : units.log2 = 52 + g := by
    unfold gridExponent at h
    omega
  have hne : units ≠ 0 := by
    rintro rfl
    rw [Nat.log2_zero] at hlog
    omega
  exact (Nat.le_log2 hne).mp hlog.ge

/-- and all that is on a finer one only is below. -/
theorem lt_two_pow_of_gridExponent {units g : Nat} (h : gridExponent units < g) :
    units < 2 ^ (52 + g) := by
  rcases Nat.eq_zero_or_pos units with rfl | hpos
  · exact Nat.two_pow_pos _
  · rw [← Nat.log2_lt hpos.ne']
    unfold gridExponent at h
    omega

/-- **No double is nearer than the one that is chosen**, and if another one is as near, the
chosen one ends with a zero. -/
theorem roundUnits_nearest (num : Nat) {den units : Nat} (hden : 0 < den)
    (hunits : units % Nat.pow 2 (gridExponent units) = 0) (hne : units ≠ roundUnits num den) :
    distance (Nat.pow 2 unitExponent * num) (roundUnits num den * den) <
        distance (Nat.pow 2 unitExponent * num) (units * den) ∨
      distance (Nat.pow 2 unitExponent * num) (roundUnits num den * den) =
          distance (Nat.pow 2 unitExponent * num) (units * den) ∧
        EndsEven (roundUnits num den) := by
  obtain ⟨g, hg⟩ : ∃ g, gridExponent (wholeUnits num den) = g := ⟨_, rfl⟩
  obtain ⟨scaled, hscaled⟩ : ∃ scaled, Nat.pow 2 unitExponent * num = scaled := ⟨_, rfl⟩
  have hspacing : 0 < den * 2 ^ g := Nat.mul_pos hden (Nat.two_pow_pos g)
  have hround : roundUnits num den = roundDiv scaled (den * 2 ^ g) * 2 ^ g := by
    rw [← hscaled, ← hg]
    rfl
  have hle : roundDiv scaled (den * 2 ^ g) ≤ Nat.pow 2 53 := by
    have := roundDiv_grid_le (Nat.pow 2 unitExponent * num) den
    rw [← hscaled, ← hg]
    exact this
  have hmul : ∀ k, k * 2 ^ g * den = k * (den * 2 ^ g) := fun k => by
    rw [Nat.mul_assoc, Nat.mul_comm den]
  rw [hscaled]
  by_cases hgrid : g ≤ gridExponent units
  · -- another multiple of the spacing
    obtain ⟨k, rfl⟩ : 2 ^ g ∣ units :=
      (Nat.pow_dvd_pow 2 hgrid).trans (Nat.dvd_of_mod_eq_zero hunits)
    rw [Nat.mul_comm (2 ^ g) k, hround] at *
    have hk : k ≠ roundDiv scaled (den * 2 ^ g) := fun h => hne (by rw [h])
    rw [hmul, hmul]
    exact (roundDiv_nearest scaled hspacing hk).imp_right fun ⟨h, heven⟩ =>
      ⟨h, endsEven_mul hle heven⟩
  · -- a double below the power of two where the grid begins, which is no nearer itself
    left
    have hfiner : gridExponent units < g := Nat.lt_of_not_le hgrid
    have hwhole : scaled / den = wholeUnits num den := by rw [← hscaled, wholeUnits]
    have hbegin : 2 ^ 52 * 2 ^ g * den ≤ scaled := by
      rw [← Nat.le_div_iff_mul_le hden, hwhole, ← pow_add]
      exact two_pow_le_of_gridExponent (by omega) hg
    have hbelow : units * den < 2 ^ 52 * 2 ^ g * den := by
      rw [← pow_add]
      exact Nat.mul_lt_mul_of_pos_right (lt_two_pow_of_gridExponent hfiner) hden
    have hchosen := distance_roundDiv_le scaled hspacing (2 ^ 52)
    rw [← hmul, ← hmul, ← hround] at hchosen
    refine hchosen.trans_lt ?_
    unfold distance
    omega

/-- The count of units of a double, infinite ones included. -/
def IsPlace (units : Nat) : Prop :=
  units % Nat.pow 2 (gridExponent units) = 0 ∧ units ≤ Nat.pow 2 overflowExponent

theorem isPlace_overflow : IsPlace (Nat.pow 2 overflowExponent) := by
  have hgrid := @mul_two_pow_mod_grid 1 overflowExponent (two_pow_pos 53)
  rw [Nat.one_mul] at hgrid
  exact ⟨hgrid, Nat.le_refl _⟩

theorem isPlace_of_place? {y : Binary64} {b : Int} (h : y.place? = some b) : IsPlace b.natAbs := by
  rcases y with _ | s | y
  · cases h
  · cases s with
    | true =>
      have hb : -((Nat.pow 2 overflowExponent : Nat) : Int) = b := Option.some.inj h
      rw [← hb, Int.natAbs_neg, Int.natAbs_natCast]
      exact isPlace_overflow
    | false =>
      have hb : ((Nat.pow 2 overflowExponent : Nat) : Int) = b := Option.some.inj h
      rw [← hb, Int.natAbs_natCast]
      exact isPlace_overflow
  · have hunits : b.natAbs = y.units := by
      rw [← Option.some.inj h, Finite.signedUnits]
      split <;> omega
    rw [hunits]
    exact ⟨y.representable.1, y.representable.2.le⟩

/-- Where doubles overflow, the infinite one is nearest. -/
theorem min_roundUnits_nearest (num : Nat) {den a units : Nat} (hden : 0 < den)
    (ha : a = min (roundUnits num den) (Nat.pow 2 overflowExponent)) (hunits : IsPlace units)
    (hne : units ≠ a) :
    distance (Nat.pow 2 unitExponent * num) (a * den) <
        distance (Nat.pow 2 unitExponent * num) (units * den) ∨
      distance (Nat.pow 2 unitExponent * num) (a * den) =
          distance (Nat.pow 2 unitExponent * num) (units * den) ∧ EndsEven a := by
  have hplace := isPlace_overflow
  rw [IsPlace] at hunits hplace
  obtain ⟨limit, hlimit⟩ : ∃ limit, Nat.pow 2 overflowExponent = limit := ⟨_, rfl⟩
  rw [hlimit] at ha hunits hplace
  rcases le_or_gt (roundUnits num den) limit with hle | hlt
  · rw [min_eq_left hle] at ha
    rw [ha] at hne ⊢
    exact roundUnits_nearest num hden hunits.1 hne
  · rw [min_eq_right hlt.le] at ha
    rw [ha] at hne ⊢
    have hnearer := roundUnits_nearest num hden hplace.1 hlt.ne
    have hbeyond : limit * den < roundUnits num den * den := Nat.mul_lt_mul_of_pos_right hlt hden
    have hbelow : units * den < limit * den :=
      Nat.mul_lt_mul_of_pos_right (Nat.lt_of_le_of_ne hunits.2 hne) hden
    unfold distance at *
    omega

/-! ### Numbers -/

/-- A number in units. -/
def inUnits (q : ℚ) : ℚ := (Nat.pow 2 unitExponent : Nat) * q

theorem inUnits_neg (q : ℚ) : inUnits (-q) = -inUnits q := mul_neg _ _

theorem abs_inUnits_sub {q : ℚ} (hq : 0 ≤ q) (units : Nat) :
    |inUnits q - units| =
      (distance (Nat.pow 2 unitExponent * q.num.natAbs) (units * q.den) : ℚ) / q.den := by
  have hden : (0 : ℚ) < q.den := by exact_mod_cast q.den_pos
  obtain ⟨k, hk⟩ : ∃ k, Nat.pow 2 unitExponent = k := ⟨_, rfl⟩
  have hquotient := natAbs_num_div_den hq
  obtain ⟨n, hn⟩ : ∃ n, q.num.natAbs = n := ⟨_, rfl⟩
  rw [hn] at hquotient ⊢
  have hvalue : inUnits q - units = (k * n - units * q.den) / q.den := by
    rw [sub_div, mul_div_assoc, hquotient, mul_div_cancel_right₀ _ hden.ne', inUnits, hk]
  rw [hvalue, abs_div, abs_of_pos hden, distance, Nat.cast_natAbs, hk]
  push_cast
  rfl

theorem isPlace_zero : IsPlace 0 := ⟨Nat.zero_mod _, Nat.zero_le _⟩

/-- One place is preferred to another one for a number: it is nearer, or as near and ends
with a zero. -/
def Prefers (q : ℚ) (a b : Int) : Prop :=
  |inUnits q - a| < |inUnits q - b| ∨ |inUnits q - a| = |inUnits q - b| ∧ EndsEven a.natAbs

/-- **The nearest place** is preferred to all others. -/
def IsNearestPlace (q : ℚ) (a : Int) : Prop :=
  ∀ b : Int, IsPlace b.natAbs → b ≠ a → Prefers q a b

/-- Among the places that are not negative. -/
theorem nearest_of_nonneg {q : ℚ} (hq : 0 ≤ q) {a units : Nat} (ha : nearestPlace q = a)
    (hunits : IsPlace units) (hne : units ≠ a) : Prefers q a units := by
  have hden : (0 : ℚ) < q.den := by exact_mod_cast q.den_pos
  have hmin : a = min (roundUnits q.num.natAbs q.den) (Nat.pow 2 overflowExponent) := by
    rw [nearestPlace_of_nonneg hq] at ha
    exact_mod_cast ha.symm
  rw [Prefers, Int.cast_natCast, Int.cast_natCast, abs_inUnits_sub hq, abs_inUnits_sub hq,
    div_lt_div_iff_of_pos_right hden, div_left_inj' hden.ne', Nat.cast_lt, Nat.cast_inj,
    Int.natAbs_natCast]
  exact min_roundUnits_nearest _ q.den_pos hmin hunits hne

theorem isNearestPlace_of_nonneg {q : ℚ} (hq : 0 ≤ q) : IsNearestPlace q (nearestPlace q) := by
  obtain ⟨a, ha⟩ : ∃ a : Nat, nearestPlace q = a := ⟨_, nearestPlace_of_nonneg hq⟩
  have hunits : 0 ≤ inUnits q := mul_nonneg (Nat.cast_nonneg _) hq
  rw [ha]
  intro b hb hne
  rcases lt_or_ge b 0 with hneg | hnonneg
  · -- zero is nearer than a place beyond it
    have hzero : |inUnits q - (a : Int)| ≤ inUnits q := by
      have hbound : |inUnits q - (a : Int)| ≤ |inUnits q - ((0 : Nat) : Int)| := by
        by_cases hzero : 0 = a
        · rw [hzero]
        · exact (nearest_of_nonneg hq ha isPlace_zero hzero).elim le_of_lt fun h => h.1.le
      rwa [Nat.cast_zero, Int.cast_zero, sub_zero, abs_of_nonneg hunits] at hbound
    have hbeyond : (b : ℚ) < 0 := by exact_mod_cast hneg
    have hfar : inUnits q < |inUnits q - b| := lt_of_lt_of_le (by linarith) (le_abs_self _)
    exact Or.inl (hzero.trans_lt hfar)
  · obtain ⟨u, rfl⟩ := Int.eq_ofNat_of_zero_le hnonneg
    rw [Int.natAbs_natCast] at hb
    exact nearest_of_nonneg hq ha hb (by exact_mod_cast hne)

/-- **Rounding goes to the nearest place.** -/
theorem isNearestPlace_nearestPlace (q : ℚ) : IsNearestPlace q (nearestPlace q) := by
  rcases le_total 0 q with hq | hq
  · exact isNearestPlace_of_nonneg hq
  · -- seen from the other side of zero
    have hmirror := isNearestPlace_of_nonneg (neg_nonneg.mpr hq)
    rw [nearestPlace_neg] at hmirror
    intro b hb hne
    have hflip : ∀ c : Int, |inUnits (-q) - (-c : Int)| = |inUnits q - c| := by
      intro c
      rw [inUnits_neg, Int.cast_neg, neg_sub_neg, abs_sub_comm]
    have h := hmirror (-b) (by rwa [Int.natAbs_neg]) (fun h => hne (neg_injective h))
    rwa [Prefers, hflip, hflip, Int.natAbs_neg] at h

/-- **The double nearest to a number**: its place is preferred to that of every other one. -/
def IsNearest (x : Binary64) (q : ℚ) : Prop :=
  ∃ a, x.place? = some a ∧
    ∀ (y : Binary64) (b : Int), y.place? = some b → b ≠ a → Prefers q a b

theorem isNearest_of_place? {x : Binary64} {q : ℚ} (h : x.place? = some (nearestPlace q)) :
    x.IsNearest q :=
  ⟨_, h, fun _ b hb => isNearestPlace_nearestPlace q b (isPlace_of_place? hb)⟩

end Binary64

end JsonSieve
