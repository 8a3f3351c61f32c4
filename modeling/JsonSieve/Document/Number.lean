import JsonSieve.Binary64.Shortest

/-!
# Numbers of a document

A number is kept as an integer while it is one and fits 64 bits, signed when
negative and unsigned otherwise; every other number is a finite double. Integers
are compared and printed as what they are, so only a comparison rounds them.
-/

namespace JsonSieve

namespace Document

/-- A number of a document. -/
inductive Number where
  /-- An integer from `-2 ^ 63` on and below `2 ^ 64`. -/
  | integer (value : Int)
    (inRange : -9223372036854775808 ≤ value ∧ value < 18446744073709551616)
  /-- A finite double. -/
  | real (value : Binary64.Finite)
  deriving DecidableEq

namespace Number

/-- An integer as a number, if it is in range. -/
def ofInt? (n : Int) : Option Number :=
  if h : -9223372036854775808 ≤ n ∧ n < 18446744073709551616 then some (.integer n h) else none

/-- The nearest double, which is the number itself when it is a double. -/
def toBinary64 : Number → Binary64
  | integer n _ => .ofInt n
  | real x => .finite x

/-- The written form: an integer has no point, a double always has a point or an
exponent. -/
def toChars : Number → List Char
  | integer n _ => (if n < 0 then ['-'] else []) ++ Nat.toDigits 10 n.natAbs
  | real x => x.toChars

end Number

end Document

end JsonSieve
