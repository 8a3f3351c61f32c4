/-!
# Blank characters

Conditions are trimmed of every character with the Unicode property
`White_Space`. There are twenty-five of them, in ten ranges; the zero width
space and the byte order mark are not among them, nor are the information
separators.

## Main declarations

* `JsonSieve.Text.isBlank` – the property;
* `JsonSieve.Text.trimStart`, `JsonSieve.Text.trimEnd`, `JsonSieve.Text.trim` –
  a text without the blanks before it, after it, or both.
-/

namespace JsonSieve

namespace Text

/-- The ranges of code points with the property `White_Space`, ends included. -/
def blankRanges : List (Nat × Nat) :=
  [(0x0009, 0x000D), (0x0020, 0x0020), (0x0085, 0x0085), (0x00A0, 0x00A0), (0x1680, 0x1680),
    (0x2000, 0x200A), (0x2028, 0x2029), (0x202F, 0x202F), (0x205F, 0x205F), (0x3000, 0x3000)]

/-- Whether a character is blank. -/
def isBlank (c : Char) : Bool :=
  blankRanges.any fun (first, last) => first ≤ c.toNat && c.toNat ≤ last

/-- A text without the blanks at its start. -/
def trimStart (text : List Char) : List Char := text.dropWhile isBlank

/-- A text without the blanks at its end. -/
def trimEnd (text : List Char) : List Char := (text.reverse.dropWhile isBlank).reverse

/-- A text without the blanks at either end. -/
def trim (text : List Char) : List Char := trimEnd (trimStart text)

@[simp] theorem trimEnd_nil : trimEnd [] = [] := rfl

end Text

end JsonSieve
