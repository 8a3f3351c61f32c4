import JsonSieve.Binary64.Rounding

/-!
# Scaling by powers of ten

A significand can be brought to a power of ten by arithmetic on doubles alone: it
is rounded to a double, and then multiplied or divided by powers of ten that are
rounded to doubles themselves. Powers beyond `10 ^ 308` are not doubles, so larger
numbers are out of range and smaller ones take several divisions. Each step
rounds; the result is near the exact value but not always the double nearest to
it, which `JsonSieve.Binary64.ofDecimal` is.

The main declaration is `JsonSieve.Binary64.scaled?`.
-/

namespace JsonSieve

namespace Binary64

/-- The double nearest to `10 ^ n`. -/
def powerOfTen (n : Nat) : Binary64 := ofRatio false (Nat.pow 10 n) 1

/-- The largest `n` for which `10 ^ n` is a finite double. -/
def maxPower : Nat := 308

namespace Finite

/-- `x * 10 ^ n` in one step, unless it is out of range. -/
def multiplyPower? (x : Finite) (n : Nat) : Option Finite :=
  if n ≤ maxPower then do
    let p ← (powerOfTen n).toFinite?
    (x.mul p).toFinite?
  else if x.units = 0 then some x
  else none

/-- `x / 10 ^ n` in one step. -/
def dividePower? (x : Finite) (n : Nat) : Option Finite := do
  let p ← (powerOfTen n).toFinite?
  (x.div p).toFinite?

/-- `x` divided by the largest power of ten as often as `steps` says, or until it
is zero. -/
def divideSteps? : Nat → Finite → Option Finite
  | 0, x => some x
  | steps + 1, x =>
    if x.units = 0 then some x
    else do
      let y ← x.dividePower? maxPower
      divideSteps? steps y

/-- `x / 10 ^ n` in as few steps as there can be. -/
def divide? (x : Finite) (n : Nat) : Option Finite := do
  let steps := (n - 1) / maxPower
  let y ← divideSteps? steps x
  y.dividePower? (n - maxPower * steps)

end Finite

/-- `significand * 10 ^ exponent`, rounded at each step, unless it is out of
range. -/
def scaled? (significand : Nat) (exponent : Int) : Option Finite := do
  let x ← (ofRatio false significand 1).toFinite?
  match exponent with
  | .ofNat n => x.multiplyPower? n
  | .negSucc n => x.divide? (n + 1)

end Binary64

end JsonSieve
