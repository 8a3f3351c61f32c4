/-!
# Where output goes

A sink takes bytes in order. It may have room for so many bytes only, and then it
takes the first part of what does not fit and fails; and it may fail when it is
flushed at the end. What it says in each case is its own.
-/

namespace JsonSieve

/-- Takes bytes, until it fails. -/
structure Sink where
  /-- The bytes that have been taken. -/
  accepted : Array UInt8
  /-- How many more bytes will be taken, if there is a limit. -/
  room : Option Nat
  /-- What it says when there is no more room. -/
  writeFault : String
  /-- What it says when it is flushed, if that fails. -/
  flushFault : Option String

namespace Sink

/-- A sink that takes everything. -/
def unlimited : Sink := ⟨#[], none, "", none⟩

/-- Writes bytes. The answer holds what the sink says if it fails. -/
def write (sink : Sink) (bytes : List UInt8) : Sink × Option String :=
  match sink.room with
  | none => ({ sink with accepted := sink.accepted ++ bytes }, none)
  | some room =>
    if bytes.length ≤ room then
      ({ sink with accepted := sink.accepted ++ bytes, room := some (room - bytes.length) }, none)
    else
      ({ sink with accepted := sink.accepted ++ bytes.take room, room := some 0 },
        some sink.writeFault)

/-- The bytes taken so far, and the sink without them. -/
def drain (sink : Sink) : Array UInt8 × Sink := (sink.accepted, { sink with accepted := #[] })

/-- Without a limit everything is taken. -/
theorem write_of_room_eq_none {sink : Sink} (h : sink.room = none) (bytes : List UInt8) :
    sink.write bytes = ({ sink with accepted := sink.accepted ++ bytes }, none) := by
  simp [write, h]

/-- What has been taken stays taken, and of what is written a first part is
taken. -/
theorem exists_accepted_write (sink : Sink) (bytes : List UInt8) :
    ∃ n, (sink.write bytes).1.accepted = sink.accepted ++ bytes.take n := by
  unfold write
  split
  · exact ⟨bytes.length, by simp⟩
  · split
    · exact ⟨bytes.length, by simp⟩
    · exact ⟨_, rfl⟩

end Sink

end JsonSieve
