import JsonSieve.Document.Basic

/-!
# The written form of a document

A document is written without blanks, the members of an object in the order they
are kept in. In strings the quotation mark, the backslash and the control
characters below the space are escaped and everything else is written as it is.
So the written form holds no line break, whatever the document holds.

## Main declarations

* `JsonSieve.Document.quoted` – the written form of a string;
* `JsonSieve.Document.toChars`, `JsonSieve.Document.render` – the written form of
  a document.
-/

namespace JsonSieve

namespace Document

/-! ### Strings -/

/-- The form in which a character stands inside quotation marks. -/
def escaped (c : Char) : List Char :=
  if c = '"' then ['\\', '"']
  else if c = '\\' then ['\\', '\\']
  else if 0x20 ≤ c.toNat then [c]
  else if c.toNat = 0x08 then ['\\', 'b']
  else if c.toNat = 0x09 then ['\\', 't']
  else if c.toNat = 0x0A then ['\\', 'n']
  else if c.toNat = 0x0C then ['\\', 'f']
  else if c.toNat = 0x0D then ['\\', 'r']
  else ['\\', 'u', '0', '0', Nat.digitChar (c.toNat / 16), Nat.digitChar (c.toNat % 16)]

/-- A string between quotation marks. -/
def quoted (s : String) : List Char := '"' :: (s.toList.flatMap escaped ++ ['"'])

/-! ### Documents -/

mutual

/-- The written form of a document, as characters. -/
def toChars : Document → List Char
  | null => ['n', 'u', 'l', 'l']
  | bool true => ['t', 'r', 'u', 'e']
  | bool false => ['f', 'a', 'l', 's', 'e']
  | number n => n.toChars
  | string s => quoted s
  | array [] => ['[', ']']
  | array (d :: rest) => '[' :: (d.toChars ++ elementsToChars rest)
  | object [] => ['{', '}']
  | object ((k, v) :: rest) => '{' :: (quoted k ++ ':' :: (v.toChars ++ membersToChars rest))

/-- The elements after the first one, each after its comma, and the closing
bracket. -/
def elementsToChars : List Document → List Char
  | [] => [']']
  | d :: rest => ',' :: (d.toChars ++ elementsToChars rest)

/-- The members after the first one, each after its comma, and the closing
brace. -/
def membersToChars : List (String × Document) → List Char
  | [] => ['}']
  | (k, v) :: rest => ',' :: (quoted k ++ ':' :: (v.toChars ++ membersToChars rest))

end

/-- The written form of a document. -/
def render (d : Document) : String := String.ofList d.toChars

end Document

end JsonSieve
