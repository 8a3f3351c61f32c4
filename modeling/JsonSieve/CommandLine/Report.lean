/-!
# Reports of errors

A report has a headline, and below it the errors that lie underneath, from the
outside in, each indented. If there is more than one they are numbered. Further
lines of a text are indented as far as its first one.
-/

namespace JsonSieve

namespace CommandLine

/-- A text with `margin` before every line but the first. -/
def hang (margin : List Char) (text : List Char) : List Char :=
  text.flatMap fun c => if c = '\n' then '\n' :: margin else [c]

/-- One cause, without a number. -/
def loneCause (text : String) : List Char :=
  let margin := List.replicate 4 ' '
  margin ++ hang margin text.toList

/-- A cause with its number, which is set right in five columns. -/
def numberedCause (text : String) (number : Nat) : List Char :=
  let digits := Nat.toDigits 10 number
  List.replicate (5 - digits.length) ' ' ++ digits ++
    ':' :: ' ' :: hang (List.replicate 7 ' ') text.toList

/-- The causes, a line or more for each. -/
def causeList : List String → List Char
  | [cause] => '\n' :: loneCause cause
  | causes => (causes.mapIdx fun i cause => '\n' :: numberedCause cause i).flatten

/-- The report of an error. -/
def report (headline : String) (causes : List String) : String :=
  let above := "Error: " ++ headline
  if causes.isEmpty then above ++ "\n"
  else above ++ "\n\nCaused by:" ++ String.ofList (causeList causes) ++ "\n"

end CommandLine

end JsonSieve
