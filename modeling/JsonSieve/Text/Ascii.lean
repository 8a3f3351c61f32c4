/-!
# Bytes with a meaning

A document is read from bytes, and all its punctuation is ASCII. This file names
the bytes that the reader looks for and says which bytes are digits.
-/

namespace JsonSieve

namespace Ascii

/-- The byte of an ASCII character. -/
def byte (c : Char) : UInt8 := UInt8.ofNat c.toNat

/-- The byte of `"`. -/
def quote : UInt8 := byte '"'

/-- The byte of `+`. -/
def plus : UInt8 := byte '+'

/-- The byte of `,`. -/
def comma : UInt8 := byte ','

/-- The byte of `-`. -/
def minus : UInt8 := byte '-'

/-- The byte of `.`. -/
def point : UInt8 := byte '.'

/-- The byte of `/`. -/
def slash : UInt8 := byte '/'

/-- The byte of `:`. -/
def colon : UInt8 := byte ':'

/-- The byte of `[`. -/
def leftBracket : UInt8 := byte '['

/-- The byte of `\`. -/
def backslash : UInt8 := byte '\\'

/-- The byte of `]`. -/
def rightBracket : UInt8 := byte ']'

/-- The byte of `{`. -/
def leftBrace : UInt8 := byte '{'

/-- The byte of `}`. -/
def rightBrace : UInt8 := byte '}'

/-- The byte of a space. -/
def space : UInt8 := byte ' '

/-- The byte of a tab. -/
def tab : UInt8 := byte '\t'

/-- The byte that ends a line. -/
def newline : UInt8 := byte '\n'

/-- The byte of a form feed. -/
def formFeed : UInt8 := 0x0C

/-- The byte of a carriage return. -/
def carriageReturn : UInt8 := byte '\r'

/-- The value of a decimal digit. -/
def digit? (b : UInt8) : Option Nat :=
  if 0x30 ≤ b.toNat ∧ b.toNat ≤ 0x39 then some (b.toNat - 0x30) else none

/-- The value of a hexadecimal digit of either case. -/
def hexDigit? (b : UInt8) : Option Nat :=
  if 0x30 ≤ b.toNat ∧ b.toNat ≤ 0x39 then some (b.toNat - 0x30)
  else if 0x41 ≤ b.toNat ∧ b.toNat ≤ 0x46 then some (b.toNat - 0x41 + 10)
  else if 0x61 ≤ b.toNat ∧ b.toNat ≤ 0x66 then some (b.toNat - 0x61 + 10)
  else none

/-- Whether the first byte is a decimal digit. -/
def startsWithDigit : List UInt8 → Bool
  | [] => false
  | b :: _ => (digit? b).isSome

/-- How many decimal digits there are at the start. -/
def countDigits (s : List UInt8) : Nat := (s.takeWhile fun b => (digit? b).isSome).length

/-- The bytes after the decimal digits at the start. -/
def dropDigits (s : List UInt8) : List UInt8 := s.dropWhile fun b => (digit? b).isSome

theorem length_dropDigits_le (s : List UInt8) : (dropDigits s).length ≤ s.length :=
  (List.dropWhile_sublist _).length_le

end Ascii

end JsonSieve
