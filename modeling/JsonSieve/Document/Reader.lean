import JsonSieve.Document.Basic
import JsonSieve.Document.NumberReader
import JsonSieve.Document.StringReader

/-!
# Reading documents

A document is read from left to right, keeping a list of the arrays and objects
that are still open (`Frame`), innermost first. What may come next depends only
on a state (`State`): a value, a key, a colon, a comma or a closing bracket. Each
step skips the blanks, takes one bracket, separator, keyword, number or string,
and passes to the next state (`State.step`); so reading ends because every step
leaves fewer bytes than it found.

Arrays and objects may be nested `maxDepth` deep. A key that is given twice has
the value given last.

## Main declarations

* `JsonSieve.Document.State.step` – what one step reads;
* `JsonSieve.Document.State.run` – the steps up to the end of the input;
* `JsonSieve.Document.read`, `JsonSieve.Document.parse` – reading a whole input.
-/

namespace JsonSieve

namespace Document

/-- The most arrays and objects that may contain one another. -/
def maxDepth : Nat := 127

/-- An array or object that is not closed yet. -/
inductive Frame where
  /-- An array with the elements read so far, the last one first. -/
  | array (elements : List Document)
  /-- An object with the members read so far, and the key whose value is being
  read. -/
  | object (members : Members) (key : String)

/-- What has been read, and so what may come next. The frames are those around
the place. -/
inductive State where
  /-- A value comes next. -/
  | value (frames : List Frame)
  /-- An array has been opened: a value or its end comes next. -/
  | arrayOpened (frames : List Frame)
  /-- An element has been read: a comma or the end of the array comes next. -/
  | afterElement (elements : List Document) (frames : List Frame)
  /-- A comma after an element has been read: a value comes next. -/
  | nextElement (elements : List Document) (frames : List Frame)
  /-- An object has been opened: a key or its end comes next. -/
  | objectOpened (frames : List Frame)
  /-- A key has been read: a colon comes next. -/
  | afterKey (members : Members) (key : String) (frames : List Frame)
  /-- A member has been read: a comma or the end of the object comes next. -/
  | afterMember (members : Members) (frames : List Frame)
  /-- A comma after a member has been read: a key comes next. -/
  | nextMember (members : Members) (frames : List Frame)
  /-- The document has been read: nothing comes next. -/
  | done (document : Document)

namespace State

/-- The state after the value `d` inside some frames. -/
def complete (d : Document) : List Frame → State
  | [] => done d
  | .array elements :: frames => afterElement (d :: elements) frames
  | .object members key :: frames => afterMember (members.insert key d) frames

end State

/-! ### Values -/

/-- The state and the bytes after a step. -/
abbrev Step : Type := Reading State

/-- Reads the rest of a keyword, byte by byte. -/
def readKeyword {α : Type} (value : α) : List UInt8 → List UInt8 → Reading α
  | [], s => .ok (value, s)
  | _ :: _, [] => failed .endInValue []
  | k :: keyword, b :: r =>
    if b = k then readKeyword value keyword r else failed .expectedKeyword r

/-- Puts what was read where a value is due. -/
def Reading.complete {α : Type} (wrap : α → Document) (frames : List Frame) :
    Reading α → Step
  | .error f => .error f
  | .ok (x, r) => .ok (State.complete (wrap x) frames, r)

/-- Opens an array or object whose first byte has been read, unless too many are
open. -/
def openContainer (opened : List Frame → State) (frames : List Frame) (r : List UInt8) : Step :=
  if frames.length < maxDepth then .ok (opened frames, r) else failed .tooDeep r

/-- Reads a value, or the opening of one, that begins with the byte `b`. -/
def readValue (b : UInt8) (r : List UInt8) (frames : List Frame) : Step :=
  if b = Ascii.quote then (readString r).complete .string frames
  else if b = Ascii.leftBracket then openContainer .arrayOpened frames r
  else if b = Ascii.leftBrace then openContainer .objectOpened frames r
  else if b = Ascii.minus then (readNumber true r).complete .number frames
  else if (Ascii.digit? b).isSome then (readNumber false (b :: r)).complete .number frames
  else if b = Ascii.byte 'n' then
    (readKeyword .null (['u', 'l', 'l'].map Ascii.byte) r).complete id frames
  else if b = Ascii.byte 't' then
    (readKeyword (.bool true) (['r', 'u', 'e'].map Ascii.byte) r).complete id frames
  else if b = Ascii.byte 'f' then
    (readKeyword (.bool false) (['a', 'l', 's', 'e'].map Ascii.byte) r).complete id frames
  else failed .expectedValue r

/-- Reads a key that begins with the byte `b`. -/
def readKey (b : UInt8) (r : List UInt8) (members : Members) (frames : List Frame) : Step :=
  if b = Ascii.quote then
    match readString r with
    | .error f => .error f
    | .ok (key, r) => .ok (.afterKey members key frames, r)
  else failed .expectedKey r

/-! ### Steps -/

namespace State

/-- One step from a byte that is not blank. -/
def step (b : UInt8) (r : List UInt8) : State → Step
  | value frames => readValue b r frames
  | arrayOpened frames =>
    if b = Ascii.rightBracket then .ok (complete (.array []) frames, r)
    else readValue b r (.array [] :: frames)
  | afterElement elements frames =>
    if b = Ascii.comma then .ok (nextElement elements frames, r)
    else if b = Ascii.rightBracket then .ok (complete (.array elements.reverse) frames, r)
    else failed .expectedElementEnd r
  | nextElement elements frames =>
    if b = Ascii.rightBracket then failed .trailingComma r
    else readValue b r (.array elements :: frames)
  | objectOpened frames =>
    if b = Ascii.rightBrace then .ok (complete (.object []) frames, r)
    else readKey b r [] frames
  | afterKey members key frames =>
    if b = Ascii.colon then .ok (value (.object members key :: frames), r)
    else failed .expectedColon r
  | afterMember members frames =>
    if b = Ascii.comma then .ok (nextMember members frames, r)
    else if b = Ascii.rightBrace then .ok (complete (.object members) frames, r)
    else failed .expectedMemberEnd r
  | nextMember members frames =>
    if b = Ascii.rightBrace then failed .trailingComma r
    else readKey b r members frames
  | done _ => failed .trailingCharacters r

/-- What the end of the input means. -/
def finish : State → Except Failure Document
  | value _ => .error ⟨.endInValue, [], 0⟩
  | arrayOpened _ => .error ⟨.endInArray, [], 0⟩
  | afterElement _ _ => .error ⟨.endInArray, [], 0⟩
  | nextElement _ _ => .error ⟨.endInValue, [], 0⟩
  | objectOpened _ => .error ⟨.endInObject, [], 0⟩
  | afterKey _ _ _ => .error ⟨.endInObject, [], 0⟩
  | afterMember _ _ => .error ⟨.endInObject, [], 0⟩
  | nextMember _ _ => .error ⟨.endInValue, [], 0⟩
  | done d => .ok d

end State

/-! ### What a step leaves unread -/

theorem length_le_of_readKeyword {α : Type} {value x : α} {keyword s r : List UInt8}
    (h : readKeyword value keyword s = .ok (x, r)) : r.length ≤ s.length := by
  fun_induction readKeyword value keyword s with
  | case1 s =>
    cases h
    exact Nat.le_refl _
  | case2 => cases h
  | case3 keyword b r' ih => exact Nat.le_succ_of_le (ih h)
  | case4 => cases h

theorem Reading.complete_eq_ok {α : Type} {wrap : α → Document} {frames : List Frame}
    {reading : Reading α} {state : State} {r : List UInt8}
    (h : reading.complete wrap frames = .ok (state, r)) :
    ∃ x, reading = .ok (x, r) ∧ state = State.complete (wrap x) frames := by
  rcases reading with f | ⟨x, r'⟩
  · cases h
  · cases h
    exact ⟨x, rfl, rfl⟩

theorem length_le_of_openContainer {opened : List Frame → State} {frames : List Frame}
    {s r : List UInt8} {state : State} (h : openContainer opened frames s = .ok (state, r)) :
    r.length ≤ s.length := by
  unfold openContainer at h
  split at h
  · cases h
    exact Nat.le_refl _
  · cases h

theorem length_le_of_readValue {b : UInt8} {frames : List Frame} {s r : List UInt8}
    {state : State} (h : readValue b s frames = .ok (state, r)) : r.length ≤ s.length := by
  unfold readValue at h
  split at h
  · obtain ⟨x, hx, -⟩ := Reading.complete_eq_ok h
    exact Nat.le_of_lt (length_lt_of_readString hx)
  split at h
  · exact length_le_of_openContainer h
  split at h
  · exact length_le_of_openContainer h
  split at h
  · obtain ⟨x, hx, -⟩ := Reading.complete_eq_ok h
    exact Nat.le_of_lt (length_lt_of_readNumber hx)
  split at h
  · obtain ⟨x, hx, -⟩ := Reading.complete_eq_ok h
    exact Nat.le_of_lt_succ (length_lt_of_readNumber hx)
  iterate 3
    split at h
    · obtain ⟨x, hx, -⟩ := Reading.complete_eq_ok h
      exact length_le_of_readKeyword hx
  cases h

theorem length_le_of_readKey {b : UInt8} {members : Members} {frames : List Frame}
    {s r : List UInt8} {state : State} (h : readKey b s members frames = .ok (state, r)) :
    r.length ≤ s.length := by
  unfold readKey at h
  split at h
  · split at h
    · cases h
    · rename_i hk
      cases h
      exact Nat.le_of_lt (length_lt_of_readString hk)
  · cases h

/-- A step reads the byte that it is given. -/
theorem length_le_of_step {b : UInt8} {s r : List UInt8} {state next : State}
    (h : state.step b s = .ok (next, r)) : r.length ≤ s.length := by
  cases state with
  | value => exact length_le_of_readValue h
  | arrayOpened =>
    rw [State.step] at h
    split at h
    · cases h
      exact Nat.le_refl _
    · exact length_le_of_readValue h
  | afterElement =>
    rw [State.step] at h
    split at h
    · cases h
      exact Nat.le_refl _
    · split at h
      · cases h
        exact Nat.le_refl _
      · cases h
  | nextElement =>
    rw [State.step] at h
    split at h
    · cases h
    · exact length_le_of_readValue h
  | objectOpened =>
    rw [State.step] at h
    split at h
    · cases h
      exact Nat.le_refl _
    · exact length_le_of_readKey h
  | afterKey =>
    rw [State.step] at h
    split at h
    · cases h
      exact Nat.le_refl _
    · cases h
  | afterMember =>
    rw [State.step] at h
    split at h
    · cases h
      exact Nat.le_refl _
    · split at h
      · cases h
        exact Nat.le_refl _
      · cases h
  | nextMember =>
    rw [State.step] at h
    split at h
    · cases h
    · exact length_le_of_readKey h
  | done => cases h

/-! ### Whole inputs -/

/-- The bytes that may stand between the parts of a document. -/
def isBlank (b : UInt8) : Bool :=
  b == Ascii.space || b == Ascii.newline || b == Ascii.tab || b == Ascii.carriageReturn

/-- The bytes from the first one on that is not blank. -/
def skipBlanks (s : List UInt8) : List UInt8 := s.dropWhile isBlank

theorem length_skipBlanks_le (s : List UInt8) : (skipBlanks s).length ≤ s.length :=
  (List.dropWhile_sublist _).length_le

/-- Steps until the input ends. -/
def State.run (state : State) (s : List UInt8) : Except Failure Document :=
  match _hs : skipBlanks s with
  | [] => state.finish
  | b :: r =>
    match _hr : state.step b r with
    | .error f => .error f
    | .ok (next, rest) => next.run rest
termination_by s.length
decreasing_by
  have h := length_skipBlanks_le s
  rw [_hs] at h
  exact Nat.lt_of_le_of_lt (length_le_of_step _hr) h

/-- At the end of the input there is no further step. -/
theorem State.run_of_end {state : State} {s : List UInt8} (h : skipBlanks s = []) :
    state.run s = state.finish := by
  rw [State.run]
  split
  · rfl
  · simp_all

/-- A step is the first one of a run. -/
theorem State.run_of_step {state next : State} {s r rest : List UInt8} {b : UInt8}
    (h : skipBlanks s = b :: r) (hr : state.step b r = .ok (next, rest)) :
    state.run s = next.run rest := by
  rw [State.run]
  split
  · simp_all
  · rename_i b' r' h'
    obtain ⟨rfl, rfl⟩ : b = b' ∧ r = r' := by simpa [h] using h'
    split
    · simp_all
    · rename_i next' rest' hr'
      obtain ⟨rfl, rfl⟩ : next = next' ∧ rest = rest' := by simpa [hr] using hr'
      rfl

/-- A step that fails is the last one of a run. -/
theorem State.run_of_failure {state : State} {s r : List UInt8} {b : UInt8} {f : Failure}
    (h : skipBlanks s = b :: r) (hr : state.step b r = .error f) : state.run s = .error f := by
  rw [State.run]
  split
  · simp_all
  · rename_i b' r' h'
    obtain ⟨rfl, rfl⟩ : b = b' ∧ r = r' := by simpa [h] using h'
    split
    · rename_i f' hf
      rw [Except.error.inj (hf.symm.trans hr)]
    · simp_all

/-- Reads an input that is one document, with blanks around it. -/
def read (input : List UInt8) : Except Failure Document := (State.value []).run input

/-- Reads an input that is one document, and says at which line and column it is
not one. -/
def parse (input : List UInt8) : Except ReadError Document :=
  match read input with
  | .error f => .error (f.locate input)
  | .ok d => .ok d

end Document

end JsonSieve
