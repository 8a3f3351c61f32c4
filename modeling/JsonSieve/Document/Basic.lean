import JsonSieve.Document.Number
import JsonSieve.Text.Utf8

/-!
# Documents

A document is null, a truth value, a number, a string, an array of documents, or
an object. The members of an object are a list in the order of the bytes of
their keys, each key occurring once; `Members.insert` keeps it so and lets the
last value given for a key stand.
-/

namespace JsonSieve

/-- A JSON value. -/
inductive Document where
  /-- The value `null`. -/
  | null
  /-- One of the values `true` and `false`. -/
  | bool (value : Bool)
  /-- A number. -/
  | number (value : Document.Number)
  /-- A string. -/
  | string (value : String)
  /-- The values between brackets, in order. -/
  | array (elements : List Document)
  /-- The keys and values between braces, in the order of the keys. -/
  | object (members : List (String × Document))

namespace Document

/-- The members of an object. -/
abbrev Members : Type := List (String × Document)

namespace Members

/-- The value of a key. -/
def get? (key : String) : Members → Option Document
  | [] => none
  | (k, v) :: rest => if k = key then some v else get? key rest

/-- The members with `key` having the value `value`, in the place that its bytes
give it. -/
def insert (key : String) (value : Document) : Members → Members
  | [] => [(key, value)]
  | (k, v) :: rest =>
    match Utf8.order key k with
    | .lt => (key, value) :: (k, v) :: rest
    | .eq => (key, value) :: rest
    | .gt => (k, v) :: insert key value rest

@[simp] theorem get?_cons (key k : String) (v : Document) (rest : Members) :
    get? key ((k, v) :: rest) = if k = key then some v else get? key rest := rfl

end Members

/-- The value of a key of an object; other documents have none. -/
def member? (key : String) : Document → Option Document
  | object members => Members.get? key members
  | _ => none

/-- An element of an array, counted from zero; other documents have none. -/
def element? (index : Nat) : Document → Option Document
  | array elements => elements[index]?
  | _ => none

end Document

end JsonSieve
