import JsonSieve.Text.Ascii

/-!
# Why a document is not read

A failure is a cause together with a place. The place is given by the bytes that
are still unread there: a byte that is out of place counts as read. For bytes
that are not UTF-8 the place is moved back by the bytes of the string from the
first invalid one on.

A place becomes a line and a column only against the whole input
(`Failure.position`): lines are counted from one, and the column is the number of
bytes read since the line began.
-/

namespace JsonSieve

namespace Document

/-- What is wrong with a document. -/
inductive Cause where
  /-- The input ends where a value is looked for. -/
  | endInValue
  /-- The input ends inside an array. -/
  | endInArray
  /-- The input ends inside an object. -/
  | endInObject
  /-- The input ends inside a string. -/
  | endInString
  /-- A byte with which no value begins. -/
  | expectedValue
  /-- A byte that is not the next one of `null`, `true` or `false`. -/
  | expectedKeyword
  /-- Neither a comma nor a bracket after an element. -/
  | expectedElementEnd
  /-- Neither a comma nor a brace after a member. -/
  | expectedMemberEnd
  /-- No colon after a key. -/
  | expectedColon
  /-- A key that is no string. -/
  | expectedKey
  /-- A closing bracket or brace after a comma. -/
  | trailingComma
  /-- Something other than a blank after the document. -/
  | trailingCharacters
  /-- A byte that breaks a number off, or a digit after a leading zero. -/
  | invalidNumber
  /-- A number beyond the largest double. -/
  | numberOutOfRange
  /-- A control character in a string. -/
  | controlCharacter
  /-- A backslash with a byte that no escape has. -/
  | invalidEscape
  /-- A leading surrogate without `\u` after it. -/
  | unexpectedEndOfEscape
  /-- A surrogate without its partner. -/
  | loneSurrogate
  /-- A string that is not UTF-8. -/
  | invalidCodePoint
  /-- Too many arrays and objects inside one another. -/
  | tooDeep
  deriving DecidableEq

/-- The wording of a cause. -/
def Cause.message : Cause → String
  | endInValue => "EOF while parsing a value"
  | endInArray => "EOF while parsing a list"
  | endInObject => "EOF while parsing an object"
  | endInString => "EOF while parsing a string"
  | expectedValue => "expected value"
  | expectedKeyword => "expected ident"
  | expectedElementEnd => "expected `,` or `]`"
  | expectedMemberEnd => "expected `,` or `\x7d`"
  | expectedColon => "expected `:`"
  | expectedKey => "key must be a string"
  | trailingComma => "trailing comma"
  | trailingCharacters => "trailing characters"
  | invalidNumber => "invalid number"
  | numberOutOfRange => "number out of range"
  | controlCharacter => "control character (\\u0000-\\u001F) found while parsing a string"
  | invalidEscape => "invalid escape"
  | unexpectedEndOfEscape => "unexpected end of hex escape"
  | loneSurrogate => "lone leading surrogate in hex escape"
  | invalidCodePoint => "invalid unicode code point"
  | tooDeep => "recursion limit exceeded"

/-- A cause and a place. -/
structure Failure where
  /-- What is wrong. -/
  cause : Cause
  /-- The bytes that are still unread. -/
  unread : List UInt8
  /-- How many columns the place lies before that. -/
  back : Nat
  deriving DecidableEq

/-- A line and a column of an input. -/
structure Position where
  /-- The line, counted from one. -/
  line : Nat
  /-- The bytes of the line up to the place. -/
  column : Nat
  deriving DecidableEq

/-- The place just after some bytes. -/
def Position.after (read : List UInt8) : Position where
  line := read.count Ascii.newline + 1
  column := (read.reverse.takeWhile (· != Ascii.newline)).length

/-- Why an input is no document, and where that shows. -/
structure ReadError where
  /-- What is wrong. -/
  cause : Cause
  /-- The line and the column. -/
  position : Position
  deriving DecidableEq

/-- The wording of an error. -/
def ReadError.message (e : ReadError) : String :=
  s!"{e.cause.message} at line {e.position.line} column {e.position.column}"

namespace Failure

/-- The bytes of `input` that are read at the place of the failure. -/
def read (f : Failure) (input : List UInt8) : List UInt8 :=
  input.take (input.length - f.unread.length)

/-- The line and the column of a failure. -/
def position (f : Failure) (input : List UInt8) : Position :=
  let p := Position.after (f.read input)
  ⟨p.line, p.column - f.back⟩

/-- A failure seen against the whole input. -/
def locate (f : Failure) (input : List UInt8) : ReadError := ⟨f.cause, f.position input⟩

end Failure

/-- A reader of the bytes at the start of an input; it answers with what it read
and the bytes after it. -/
abbrev Reading (α : Type) : Type := Except Failure (α × List UInt8)

/-- A failure at the place before `unread`. -/
def failed {α : Type} (cause : Cause) (unread : List UInt8) : Reading α :=
  .error ⟨cause, unread, 0⟩

end Document

end JsonSieve
