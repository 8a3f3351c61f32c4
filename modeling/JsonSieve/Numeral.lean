import JsonSieve.Binary64.Rounding

/-!
# Number literals

The literal of a condition is a number when it is a sign, which may be left out,
followed by a decimal numeral or by one of the names `inf`, `infinity` and `nan`
in any case. A decimal numeral has ASCII digits with at most one point among
them, at least one digit, and an exponent that may be left out. Nothing may
stand around it.

Reading gives the exact value (`Numeral.ofChars?`), which is then rounded once
(`Numeral.toBinary64`).
-/

namespace JsonSieve

/-- What a number literal says. -/
inductive Numeral where
  /-- A name of a value that is not a number. -/
  | nan
  /-- A name of one of the infinities. -/
  | infinity (negative : Bool)
  /-- The exact number `mantissa * 10 ^ exponent`, with its sign. -/
  | decimal (negative : Bool) (mantissa : Nat) (exponent : Int)
  deriving DecidableEq

namespace Numeral

/-- A sign that may be left out; whether it is a minus, and what follows. -/
def splitSign : List Char → Bool × List Char
  | '-' :: r => (true, r)
  | '+' :: r => (false, r)
  | r => (false, r)

/-- The digits at the start of a text, and what follows. -/
def splitDigits (text : List Char) : List Char × List Char :=
  (text.takeWhile Char.isDigit, text.dropWhile Char.isDigit)

/-- The digits after a point, if the text begins with one, and what follows. -/
def splitFraction : List Char → List Char × List Char
  | '.' :: r => splitDigits r
  | r => ([], r)

/-- A text that is the sign and the digits of an exponent. -/
def exponentDigits? (text : List Char) : Option Int :=
  let (negative, digits) := splitSign text
  if digits.isEmpty ∨ digits.any (fun c => !c.isDigit) then none
  else
    let value : Int := Nat.ofDigitChars 10 digits 0
    some (if negative then -value else value)

/-- A text that is nothing, or `e` and an exponent. -/
def exponent? : List Char → Option Int
  | [] => some 0
  | c :: r => if c = 'e' ∨ c = 'E' then exponentDigits? r else none

/-- A text that is an unsigned decimal numeral. -/
def decimal? (negative : Bool) (text : List Char) : Option Numeral :=
  let (whole, r) := splitDigits text
  let (fraction, r) := splitFraction r
  if whole.isEmpty ∧ fraction.isEmpty then none
  else (exponent? r).map fun e =>
    .decimal negative (Nat.ofDigitChars 10 (whole ++ fraction) 0) (e - fraction.length)

/-- A text that is a number literal. -/
def ofChars? (text : List Char) : Option Numeral :=
  let (negative, r) := splitSign text
  let name := r.map Char.toLower
  if name = ['n', 'a', 'n'] then some .nan
  else if name = ['i', 'n', 'f'] ∨ name = ['i', 'n', 'f', 'i', 'n', 'i', 't', 'y'] then
    some (.infinity negative)
  else decimal? negative r

/-- The nearest double. -/
def toBinary64 : Numeral → Binary64
  | nan => .nan
  | infinity negative => .infinite negative
  | decimal negative mantissa exponent => .ofDecimal negative mantissa exponent

end Numeral

/-- The double that a text writes, if it is a number literal. -/
def Binary64.ofChars? (text : List Char) : Option Binary64 :=
  (Numeral.ofChars? text).map Numeral.toBinary64

end JsonSieve
