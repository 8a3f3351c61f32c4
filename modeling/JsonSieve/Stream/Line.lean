import JsonSieve.Text.Ascii

/-!
# Lines

A line of a stream ends with a newline, which the last one may lack. Its content
is what comes before the newline, without a carriage return at the end. A line
with nothing but blanks in it holds no document.
-/

namespace JsonSieve

namespace Stream

/-- Bytes without one `b` at their end. -/
def dropEnd (b : UInt8) (s : List UInt8) : List UInt8 :=
  if s.getLast? = some b then s.dropLast else s

/-- A line without its ending. -/
def content (line : List UInt8) : List UInt8 :=
  dropEnd Ascii.carriageReturn (dropEnd Ascii.newline line)

/-- The bytes of which blank lines consist. -/
def isBlank (b : UInt8) : Bool :=
  b == Ascii.tab || b == Ascii.newline || b == Ascii.formFeed || b == Ascii.carriageReturn ||
    b == Ascii.space

/-- Whether the content of a line holds no document. -/
def isBlankLine (content : List UInt8) : Bool := content.all isBlank

@[simp] theorem dropEnd_append_self (b : UInt8) (s : List UInt8) : dropEnd b (s ++ [b]) = s := by
  simp [dropEnd]

theorem dropEnd_of_getLast?_ne {b : UInt8} {s : List UInt8} (h : s.getLast? ≠ some b) :
    dropEnd b s = s := if_neg h

theorem dropEnd_sublist (b : UInt8) (s : List UInt8) : (dropEnd b s).Sublist s := by
  unfold dropEnd
  split
  · exact List.dropLast_sublist s
  · exact List.Sublist.refl s

end Stream

end JsonSieve
