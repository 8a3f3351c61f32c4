import JsonSieve.Binary64.Rounding

/-!
# The shortest decimal of a double

A double is written with the fewest digits that read back as the same double,
and of the decimals with that many digits with the nearest one, a tie going to
the even digit. Counted in units of `10 ^ -1074` a double is a natural number
(`Finite.decimalUnits`), so the decimals of `n` significant digits around it are
its two neighbours on a grid whose spacing is a power of ten, and reading back
is a test that can be run on both (`Finite.readsBack`). Seventeen digits always
suffice; were they not to, the exact value is at hand.

The digits are laid out positionally for decimal exponents from `-5` to `15`,
with at least one digit after the point, and with an exponent otherwise, its
sign always written (`Binary64.layout`).

## Main declarations

* `JsonSieve.Binary64.Finite.shortest` – the digits and the exponent;
* `JsonSieve.Binary64.Finite.toChars` – the written form.
-/

namespace JsonSieve

namespace Binary64

/-- The number `coefficient * 10 ^ exponent`. -/
structure Decimal where
  /-- The digits, as a number. -/
  coefficient : Nat
  /-- The power of ten that the coefficient is multiplied by. -/
  exponent : Int
  deriving DecidableEq

namespace Finite

/-- The absolute value in units of `10 ^ -1074`, which is exact. -/
def decimalUnits (x : Finite) : Nat := Nat.pow 5 unitExponent * x.units

/-- Whether the double nearest to a decimal, with the sign of `x`, is `x`. -/
def readsBack (x : Finite) (d : Decimal) : Bool :=
  decide (ofDecimal x.negative d.coefficient d.exponent = .finite x)

/-- The two multiples of `spacing` around `value`, as quotients, the nearer one
first and of two equally near ones the even one. -/
def neighbours (value spacing : Nat) : List Nat :=
  let low := value / spacing
  let rest := value % spacing
  if 2 * rest < spacing ∨ 2 * rest = spacing ∧ low % 2 = 0 then [low, low + 1]
  else [low + 1, low]

/-- How many decimal digits the absolute value has in units of `10 ^ -1074`. -/
def width (x : Finite) : Nat := (Nat.toDigits 10 x.decimalUnits).length

/-- The nearest decimal that is left of the absolute value when `dropped` of its
digits in units of `10 ^ -1074` are given up, if it reads back. -/
def ofDropped? (x : Finite) (dropped : Nat) : Option Decimal :=
  ((neighbours x.decimalUnits (Nat.pow 10 dropped)).map fun c =>
    ⟨c, (dropped : Int) - unitExponent⟩).find? x.readsBack

/-- The decimal with the fewest digits that reads back, and the nearest of
these. -/
def shortest (x : Finite) : Decimal :=
  let width := x.width
  ((List.range 17).findSome? fun n => x.ofDropped? (width - (n + 1))).getD
    ⟨x.decimalUnits, -(unitExponent : Int)⟩

end Finite

/-! ### Layout -/

/-- Digits with a point after the first one, if there are more, and an
exponent. -/
def scientific (digits : List Char) (sign : Char) (exponent : Nat) : List Char :=
  digits.take 1 ++ (if digits.length ≤ 1 then [] else '.' :: digits.drop 1) ++
    'e' :: sign :: Nat.toDigits 10 exponent

/-- Digits with the place value of the first one being `10 ^ exponent`. -/
def layout (digits : List Char) : Int → List Char
  | .ofNat e =>
    if e ≤ 15 then
      let whole := digits.take (e + 1)
      let fraction := digits.drop (e + 1)
      whole ++ List.replicate (e + 1 - whole.length) '0' ++
        '.' :: (if fraction.isEmpty then ['0'] else fraction)
    else scientific digits '+' e
  | .negSucc e =>
    if e < 5 then '0' :: '.' :: (List.replicate e '0' ++ digits)
    else scientific digits '-' (e + 1)

/-- Digits without the zeros at their end. -/
def stripZeros (digits : List Char) : List Char :=
  (digits.reverse.dropWhile (· == '0')).reverse

/-- The written form of a decimal. -/
def Decimal.toChars (d : Decimal) : List Char :=
  let digits := Nat.toDigits 10 d.coefficient
  if d.coefficient = 0 then ['0', '.', '0']
  else layout (stripZeros digits) (d.exponent + (digits.length - 1 : Nat))

/-- The written form of a double. -/
def Finite.toChars (x : Finite) : List Char :=
  (if x.negative then ['-'] else []) ++
    (if x.units = 0 then ['0', '.', '0'] else x.shortest.toChars)

end Binary64

end JsonSieve
