import Mathlib.Algebra.Order.Field.Rat
import Mathlib.Data.List.DropRight
import Mathlib.Tactic.Ring
import JsonSieve.Binary64.Shortest
import JsonSieve.Proofs.Number.Text

/-!
# Digits laid out as a number

The digits of a decimal are laid out around a point or before an exponent, with zeros in
places that they leave empty. What comes out is the text of a number
(`JsonSieve.NumberText.exists_unsigned_eq_layout`), and its exact value is that of the
decimal, wherever the point has come to stand.

The digits of a positive number are a text of one because there are some and the first one
is not a zero (`JsonSieve.NumberText.IsNumeral`); this is kept when zeros at the end are
left out. Their value is told by the place of the first digit
(`JsonSieve.NumberText.digitsValue`), and then zeros at the end do not matter, and zeros at
the beginning move the first digit up. Every layout is a case of this: it writes the digits
with some zeros, and says with its point or its exponent where the first of them stands
(`JsonSieve.NumberText.magnitude_eq`).
-/

namespace JsonSieve

/-- The exact value of a decimal. -/
def Binary64.Decimal.value (d : Binary64.Decimal) : ℚ := d.coefficient * 10 ^ d.exponent

namespace NumberText

/-! ### Numerals -/

/-- Digits that write a positive number. -/
structure IsNumeral (ds : List Char) : Prop where
  /-- They are digits, -/
  isDigit : ∀ c ∈ ds, c.isDigit = true
  /-- there is one, -/
  ne_nil : ds ≠ []
  /-- and the first one is not a zero. -/
  head : ds.head? ≠ some '0'

theorem isDigit_toDigits (n : Nat) : ∀ c ∈ Nat.toDigits 10 n, c.isDigit = true :=
  fun _ hc => Nat.isDigit_of_mem_toDigits (by decide) (by decide) hc

/-- The digits of a number. -/
def digitsOf (n : Nat) : Digits := ⟨Nat.toDigits 10 n, isDigit_toDigits n⟩

theorem digitsOf_ne_nil (n : Nat) : (digitsOf n).1 ≠ [] := Nat.toDigits_ne_nil

theorem head?_toDigits {n : Nat} (h : n ≠ 0) : (Nat.toDigits 10 n).head? ≠ some '0' := by
  induction n using Nat.strongRecOn with
  | ind n ih =>
    rw [Nat.toDigits_eq_if (by decide)]
    split
    · rename_i hlt
      have hdigits : ∀ m < 10, m ≠ 0 → Nat.digitChar m ≠ '0' := by decide
      simpa using hdigits n hlt h
    · -- the first digit is that of the number without its last digit
      obtain ⟨c, ds, hds⟩ : ∃ c ds, Nat.toDigits 10 (n / 10) = c :: ds :=
      List.exists_cons_of_ne_nil (digitsOf_ne_nil (n / 10))
      have hhead := ih (n / 10) (by omega) (by omega)
      rw [hds] at hhead ⊢
      exact hhead

theorem isNumeral_toDigits {n : Nat} (h : n ≠ 0) : IsNumeral (Nat.toDigits 10 n) :=
  ⟨isDigit_toDigits n, digitsOf_ne_nil n, head?_toDigits h⟩

theorem IsNumeral.exists_cons {ds : List Char} (h : IsNumeral ds) :
    ∃ c r, ds = c :: r ∧ c ≠ '0' := by
  obtain ⟨c, r, rfl⟩ := List.exists_cons_of_ne_nil h.ne_nil
  exact ⟨c, r, rfl, fun hc => h.head (congrArg some hc)⟩

/-- Zeros at the end may be left out. -/
theorem IsNumeral.stripZeros {ds : List Char} (h : IsNumeral ds) :
    IsNumeral (Binary64.stripZeros ds) := by
  obtain ⟨c, r, hds, hc⟩ := h.exists_cons
  have hstart : Binary64.stripZeros ds <+: ds := List.rdropWhile_prefix (· == '0') ds
  have hne : Binary64.stripZeros ds ≠ [] := by
    intro hnil
    have hzeros := List.rdropWhile_eq_nil_iff.mp hnil c (hds ▸ List.mem_cons_self)
    exact hc (beq_iff_eq.mp hzeros)
  refine ⟨fun d hd => h.isDigit d (hstart.subset hd), hne, ?_⟩
  -- what is left begins as before
  obtain ⟨d, t, hstrip⟩ := List.exists_cons_of_ne_nil hne
  obtain ⟨rest, happend⟩ := hstart
  rw [hstrip, hds, List.cons_append] at happend
  rw [hstrip, (List.cons.inj happend).1]
  simpa using hc

/-! ### Values -/

/-- The exact value of a number, the sign apart. -/
def magnitude (n : NumberText) : ℚ := n.mantissa * 10 ^ n.scale

/-- **The value of digits**, the first of which counts multiples of `10 ^ e`. -/
def digitsValue (ds : List Char) (e : Int) : ℚ :=
  Nat.ofDigitChars 10 ds 0 * 10 ^ (e + 1 - ds.length)

/-- Zeros at the end do not matter, -/
theorem digitsValue_append_zeros (ds : List Char) (k : Nat) (e : Int) :
    digitsValue (ds ++ List.replicate k '0') e = digitsValue ds e := by
  have hpower : (10 : ℚ) ^ (e + 1 - ds.length) = 10 ^ k * 10 ^ (e + 1 - (ds.length + k : Nat)) := by
    rw [← zpow_natCast, ← zpow_add₀ (by norm_num)]
    congr 1
    push_cast
    omega
  rw [digitsValue, digitsValue, Nat.ofDigitChars_append, Nat.ofDigitChars_replicate_zero,
    List.length_append, List.length_replicate, hpower]
  push_cast
  ring

/-- and zeros at the beginning take the place of the first digit. -/
theorem digitsValue_zeros_append (ds : List Char) (k : Nat) (e : Int) :
    digitsValue (List.replicate k '0' ++ ds) e = digitsValue ds (e - k) := by
  have hlength : e + 1 - (k + ds.length : Nat) = e - k + 1 - ds.length := by
    push_cast
    omega
  rw [digitsValue, digitsValue, Nat.ofDigitChars_append, Nat.ofDigitChars_replicate_zero,
    Nat.mul_zero, List.length_append, List.length_replicate, hlength]

theorem digitsValue_stripZeros (ds : List Char) (e : Int) :
    digitsValue (Binary64.stripZeros ds) e = digitsValue ds e := by
  obtain ⟨k, hk⟩ : ∃ k, ds = Binary64.stripZeros ds ++ List.replicate k '0' := by
    refine ⟨(List.rtakeWhile (· == '0') ds).length, ?_⟩
    have hzeros : ∀ c ∈ List.rtakeWhile (· == '0') ds, c = '0' :=
      fun c hc => beq_iff_eq.mp (List.mem_rtakeWhile_imp (p := (· == '0')) hc)
    rw [← List.eq_replicate_of_mem hzeros]
    exact List.rdropWhile_append_rtakeWhile.symm
  conv => rhs; rw [hk]
  exact (digitsValue_append_zeros _ k e).symm

/-- **The value of a number is that of its digits**, the first of which stands where the
point or the exponent says. -/
theorem magnitude_eq (n : NumberText) :
    n.magnitude = digitsValue (n.whole.1 ++ n.fraction.1)
      (exponentValue n.exponent + n.whole.1.length - 1) := by
  have hscale : exponentValue n.exponent + n.whole.1.length - 1 + 1 -
      (n.whole.1 ++ n.fraction.1).length = n.scale := by
    rw [scale, List.length_append]
    push_cast
    omega
  rw [digitsValue, hscale]
  rfl

theorem value_decimal_eq (d : Binary64.Decimal) :
    d.value = digitsValue (Nat.toDigits 10 d.coefficient)
      (d.exponent + ((Nat.toDigits 10 d.coefficient).length - 1 : Nat)) := by
  have hpos : 0 < (Nat.toDigits 10 d.coefficient).length :=
    List.length_pos_of_ne_nil Nat.toDigits_ne_nil
  have hexponent : d.exponent + ((Nat.toDigits 10 d.coefficient).length - 1 : Nat) + 1 -
      (Nat.toDigits 10 d.coefficient).length = d.exponent := by omega
  rw [digitsValue, hexponent, Nat.ofDigitChars_toDigits (by decide) (by decide)]
  rfl

/-! ### Layouts -/

theorem e_mem_letters : 'e' ∈ ['e', 'E'] := List.mem_cons_self

/-- Digits with an exponent. -/
def scientific (negative : Bool) {ds : List Char} (h : IsNumeral ds) (sign : Char)
    (hsign : [sign] ∈ [[], ['+'], ['-']]) (e : Nat) : NumberText where
  negative := negative
  whole := ⟨ds.take 1, fun c hc => h.isDigit c (List.mem_of_mem_take hc)⟩
  fraction := ⟨ds.drop 1, fun c hc => h.isDigit c (List.mem_of_mem_drop hc)⟩
  exponent := some ⟨'e', [sign], digitsOf e, e_mem_letters, hsign, digitsOf_ne_nil e⟩
  whole_ne_nil := by
    obtain ⟨c, r, rfl, -⟩ := h.exists_cons
    exact List.cons_ne_nil c []
  leading_zero := by
    obtain ⟨c, r, rfl, hc⟩ := h.exists_cons
    exact fun hzero => absurd (Option.some.inj hzero) hc

theorem unsigned_scientific (negative : Bool) {ds : List Char} (h : IsNumeral ds) (sign : Char)
    (hsign : [sign] ∈ [[], ['+'], ['-']]) (e : Nat) :
    (scientific negative h sign hsign e).unsigned = Binary64.scientific ds sign e := by
  obtain ⟨c, r, rfl, -⟩ := h.exists_cons
  cases r <;> rfl

theorem magnitude_scientific (negative : Bool) {ds : List Char} (h : IsNumeral ds) (sign : Char)
    (hsign : [sign] ∈ [[], ['+'], ['-']]) (e : Nat) :
    (scientific negative h sign hsign e).magnitude =
      digitsValue ds (if sign = '-' then -e else e) := by
  have hdigits : (scientific negative h sign hsign e).whole.1 ++
      (scientific negative h sign hsign e).fraction.1 = ds := List.take_append_drop 1 ds
  have hlength : (scientific negative h sign hsign e).whole.1.length = 1 := by
    obtain ⟨c, r, rfl, -⟩ := h.exists_cons
    rfl
  have hvalue : exponentValue (scientific negative h sign hsign e).exponent =
      if sign = '-' then -(e : Int) else e := by
    have hmagnitude : Nat.ofDigitChars 10 (digitsOf e).1 0 = e :=
      Nat.ofDigitChars_toDigits (by decide) (by decide)
    simp [scientific, exponentValue, Exponent.value, Exponent.negative, Exponent.magnitude,
      hmagnitude]
  rw [magnitude_eq, hdigits, hlength, hvalue, Nat.cast_one, add_sub_cancel_right]

/-- Digits with a point after the first `e + 1` of them. -/
def positional (negative : Bool) {ds : List Char} (h : IsNumeral ds) (e : Nat) : NumberText where
  negative := negative
  whole := ⟨ds.take (e + 1) ++ List.replicate (e + 1 - (ds.take (e + 1)).length) '0', by
    intro c hc
    rcases List.mem_append.mp hc with hc | hc
    · exact h.isDigit c (List.mem_of_mem_take hc)
    · rw [List.eq_of_mem_replicate hc]
      rfl⟩
  fraction := ⟨if (ds.drop (e + 1)).isEmpty then ['0'] else ds.drop (e + 1), by
    intro c hc
    split at hc
    · rw [List.mem_singleton.mp hc]
      rfl
    · exact h.isDigit c (List.mem_of_mem_drop hc)⟩
  exponent := none
  whole_ne_nil := by
    obtain ⟨c, r, rfl, -⟩ := h.exists_cons
    exact List.cons_ne_nil c _
  leading_zero := by
    obtain ⟨c, r, rfl, hc⟩ := h.exists_cons
    exact fun hzero => absurd (Option.some.inj hzero) hc

theorem unsigned_positional (negative : Bool) {ds : List Char} (h : IsNumeral ds) (e : Nat) :
    (positional negative h e).unsigned =
      ds.take (e + 1) ++ List.replicate (e + 1 - (ds.take (e + 1)).length) '0' ++
        '.' :: (if (ds.drop (e + 1)).isEmpty then ['0'] else ds.drop (e + 1)) := by
  rw [unsigned, tail, positional]
  dsimp only
  rw [exponentText, List.append_nil]
  congr 1
  cases ds.drop (e + 1) <;> rfl

theorem magnitude_positional (negative : Bool) {ds : List Char} (h : IsNumeral ds) (e : Nat) :
    (positional negative h e).magnitude = digitsValue ds e := by
  have hlength : (positional negative h e).whole.1.length = e + 1 := by
    simp [positional]
  have hdigits : ∃ k, (positional negative h e).whole.1 ++ (positional negative h e).fraction.1 =
      ds ++ List.replicate k '0' := by
    rw [positional]
    dsimp only
    split
    · -- all digits stand before the point
      rename_i hdrop
      have htake : ds.take (e + 1) = ds :=
        List.take_of_length_le (List.drop_eq_nil_iff.mp (List.isEmpty_iff.mp hdrop))
      refine ⟨e + 1 - ds.length + 1, ?_⟩
      rw [htake, List.append_assoc, List.replicate_succ']
    · -- some do not, so that there is no room for zeros
      rename_i hdrop
      have hlt : e + 1 < ds.length := by
        rw [List.isEmpty_iff, List.drop_eq_nil_iff] at hdrop
        omega
      refine ⟨0, ?_⟩
      rw [List.length_take_of_le hlt.le, Nat.sub_self, List.replicate_zero, List.append_nil,
        List.take_append_drop, List.append_nil]
  obtain ⟨k, hk⟩ := hdigits
  rw [magnitude_eq, hk, hlength, digitsValue_append_zeros]
  congr 1
  rw [positional, exponentValue]
  push_cast
  omega

theorem isDigit_zero : ∀ c ∈ ['0'], c.isDigit = true := List.all_eq_true.mp rfl

/-- Digits after the point only. -/
def belowOne (negative : Bool) {ds : List Char} (hds : ∀ c ∈ ds, c.isDigit = true) :
    NumberText where
  negative := negative
  whole := ⟨['0'], isDigit_zero⟩
  fraction := ⟨ds, hds⟩
  exponent := none
  whole_ne_nil := List.cons_ne_nil '0' []
  leading_zero := fun _ => rfl

theorem unsigned_belowOne (negative : Bool) {ds : List Char} (hds : ∀ c ∈ ds, c.isDigit = true)
    (hne : ds ≠ []) : (belowOne negative hds).unsigned = '0' :: '.' :: ds := by
  obtain ⟨c, r, rfl⟩ := List.exists_cons_of_ne_nil hne
  simp [unsigned, tail, belowOne, fractionText, exponentText]

theorem magnitude_belowOne (negative : Bool) {ds : List Char} (hds : ∀ c ∈ ds, c.isDigit = true) :
    (belowOne negative hds).magnitude = digitsValue ds (-1) := by
  have hdigits : (belowOne negative hds).whole.1 ++ (belowOne negative hds).fraction.1 =
      List.replicate 1 '0' ++ ds := rfl
  rw [magnitude_eq, hdigits, digitsValue_zeros_append]
  rfl

/-- **Digits that are laid out are the text of a number**, and its value is that of the
digits, wherever the point comes to stand. -/
theorem exists_unsigned_eq_layout (negative : Bool) {ds : List Char} (h : IsNumeral ds) (e : Int) :
    ∃ n : NumberText, n.negative = negative ∧ n.unsigned = Binary64.layout ds e ∧
      n.magnitude = digitsValue ds e := by
  rcases e with e | e
  · rw [Binary64.layout]
    split
    · exact ⟨positional negative h e, rfl, unsigned_positional negative h e,
        magnitude_positional negative h e⟩
    · exact ⟨scientific negative h '+' (by decide) e, rfl, unsigned_scientific _ _ _ _ _,
        magnitude_scientific negative h '+' _ e⟩
  · rw [Binary64.layout]
    split
    · have hdigits : ∀ c ∈ List.replicate e '0' ++ ds, c.isDigit = true := by
        intro c hc
        rcases List.mem_append.mp hc with hc | hc
        · rw [List.eq_of_mem_replicate hc]
          rfl
        · exact h.isDigit c hc
      refine ⟨belowOne negative hdigits, rfl, unsigned_belowOne _ _ (by simp [h.ne_nil]), ?_⟩
      rw [magnitude_belowOne, digitsValue_zeros_append]
      congr 1
      omega
    · refine ⟨scientific negative h '-' (by decide) (e + 1), rfl, unsigned_scientific _ _ _ _ _, ?_⟩
      exact magnitude_scientific negative h '-' _ (e + 1)

/-- The texts of the two zeros, and of what rounds to them. -/
theorem exists_unsigned_eq_zero (negative : Bool) :
    ∃ n : NumberText, n.negative = negative ∧ n.unsigned = ['0', '.', '0'] ∧ n.magnitude = 0 := by
  refine ⟨belowOne negative isDigit_zero, rfl, rfl, ?_⟩
  have hzero : Nat.ofDigitChars 10 ['0'] 0 = 0 := rfl
  rw [magnitude_belowOne, digitsValue, hzero, Nat.cast_zero, zero_mul]

/-- **A decimal is written with its value.** -/
theorem exists_unsigned_eq_decimal (negative : Bool) (d : Binary64.Decimal) :
    ∃ n : NumberText, n.negative = negative ∧ n.unsigned = d.toChars ∧ n.magnitude = d.value := by
  rw [Binary64.Decimal.toChars]
  by_cases hzero : d.coefficient = 0
  · rw [if_pos hzero]
    have hvalue : d.value = 0 := by simp [Binary64.Decimal.value, hzero]
    rw [hvalue]
    exact exists_unsigned_eq_zero negative
  · rw [if_neg hzero, value_decimal_eq, ← digitsValue_stripZeros]
    exact exists_unsigned_eq_layout negative (isNumeral_toDigits hzero).stripZeros _

end NumberText

end JsonSieve
