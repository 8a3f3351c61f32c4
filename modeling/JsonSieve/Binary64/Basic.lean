/-!
# Doubles as exact counts of the smallest one

A finite double is a whole number of *units*, the unit being the smallest
positive double, `2 ^ -1074`. So a double is a sign and a natural number of
units, and the only thing to say about it is which counts of units occur: those
with at most 53 significant bits (`Binary64.Representable`), and below
`2 ^ 2098`, which is where the value `2 ^ 1024` lies.

Nothing here touches machine floating point. Values are compared as integers
(`Binary64.compare?`), and `JsonSieve.Binary64.Rounding` rounds quotients of
natural numbers to them.

## Main declarations

* `JsonSieve.Binary64.Finite` – a finite double;
* `JsonSieve.Binary64` – a double: finite, infinite, or not a number;
* `JsonSieve.Binary64.compare?` – the order of doubles, in which the two zeros
  are equal and a NaN is comparable with nothing.
-/

namespace JsonSieve

namespace Binary64

/-- The value 1 is `2 ^ unitExponent` units. -/
def unitExponent : Nat := 1074

/-- The first power of two, as a count of units, that is too large for a
double. -/
def overflowExponent : Nat := 2098

/-- The spacing of doubles at `units` is `2 ^ gridExponent units`: 52 bits are
kept below the leading one. -/
def gridExponent (units : Nat) : Nat := units.log2 - 52

/-- A count of units that a finite double has: its bits below the grid are
zero, and it does not overflow. -/
def Representable (units : Nat) : Prop :=
  units % Nat.pow 2 (gridExponent units) = 0 ∧ units < Nat.pow 2 overflowExponent

instance (units : Nat) : Decidable (Representable units) :=
  inferInstanceAs (Decidable (_ ∧ _))

theorem two_pow_pos (k : Nat) : 0 < Nat.pow 2 k := Nat.two_pow_pos k

theorem representable_zero : Representable 0 := ⟨Nat.zero_mod _, two_pow_pos _⟩

/-- A finite double: a sign and a representable count of units. There are two
zeros, which differ in sign. -/
structure Finite where
  /-- Whether the sign is a minus. -/
  negative : Bool
  /-- The absolute value, in units of `2 ^ -1074`. -/
  units : Nat
  /-- The absolute value is that of a double. -/
  representable : Representable units
  deriving DecidableEq

end Binary64

/-- A double. There is one NaN only. -/
inductive Binary64 where
  /-- Not a number. -/
  | nan
  /-- Minus or plus infinity. -/
  | infinite (negative : Bool)
  /-- A finite value. -/
  | finite (value : Binary64.Finite)
  deriving DecidableEq

namespace Binary64

namespace Finite

@[ext] theorem ext {x y : Finite} (hs : x.negative = y.negative) (hu : x.units = y.units) :
    x = y := by
  cases x
  cases y
  simp_all

/-- The zero of either sign. -/
def zero (negative : Bool) : Finite := ⟨negative, 0, representable_zero⟩

/-- The same value with the other sign. -/
def neg (x : Finite) : Finite := ⟨!x.negative, x.units, x.representable⟩

/-- The signed number of units, the same for both zeros. -/
def signedUnits (x : Finite) : Int := if x.negative then -(x.units : Int) else x.units

@[simp] theorem signedUnits_neg (x : Finite) : x.neg.signedUnits = -x.signedUnits := by
  cases h : x.negative <;> simp [neg, signedUnits, h]

end Finite

/-- The finite double that a double is, if it is one. -/
def toFinite? : Binary64 → Option Finite
  | finite x => some x
  | _ => none

/-- How `x` and `y` are ordered, if they are: minus infinity is below and plus
infinity above every finite value, and a NaN has no place. -/
def compare? : Binary64 → Binary64 → Option Ordering
  | nan, _ => none
  | _, nan => none
  | infinite true, infinite true => some .eq
  | infinite false, infinite false => some .eq
  | infinite true, _ => some .lt
  | infinite false, _ => some .gt
  | finite _, infinite true => some .gt
  | finite _, infinite false => some .lt
  | finite x, finite y => some (compare x.signedUnits y.signedUnits)

@[simp] theorem compare?_nan_left (y : Binary64) : compare? nan y = none := by
  cases y <;> rfl

@[simp] theorem compare?_nan_right (x : Binary64) : compare? x nan = none := by
  rcases x with _ | b | _
  · rfl
  · cases b <;> rfl
  · rfl

@[simp] theorem compare?_finite (x y : Finite) :
    compare? (finite x) (finite y) = some (compare x.signedUnits y.signedUnits) := rfl

end Binary64

end JsonSieve
