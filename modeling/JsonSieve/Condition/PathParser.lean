import JsonSieve.Condition.Scan

/-!
# Reading paths

The steps of a path are separated by points. A step is a key, in quotation marks
or bare, followed by indices in brackets; the key or the indices may be left out,
but not both. A bare key ends at the next point or opening bracket, and blanks
around it do not belong to it. Between a quoted key and its indices, and between
two indices, nothing may stand.
-/

namespace JsonSieve

/-! ### Parts of a step -/

/-- The text before the first `c` and the text after it. -/
def breakAt? (c : Char) : List Char → Option (List Char × List Char)
  | [] => none
  | d :: r =>
    if d = c then some ([], r)
    else (breakAt? c r).map fun (before, rest) => (d :: before, rest)

theorem length_of_breakAt? {c : Char} {text before rest : List Char}
    (h : breakAt? c text = some (before, rest)) : rest.length < text.length := by
  induction text generalizing before with
  | nil => cases h
  | cons d r ih =>
    unfold breakAt? at h
    split at h
    · cases h
      exact Nat.lt_succ_self _
    · obtain ⟨⟨b, t⟩, hb, he⟩ := Option.map_eq_some_iff.1 h
      cases he
      exact Nat.lt_succ_of_lt (ih hb)

/-- Where a bare key ends. -/
def endsBareKey (c : Char) : Bool := c == '.' || c == '['

/-- The key at the start of a step, if it has one, and the text after it. -/
def splitKey : List Char → Except ConditionError (Option (List Char) × List Char)
  | [] => .ok (none, [])
  | c :: r =>
    if isQuote c then
      match breakAt? c r with
      | none => .error (.unterminatedQuote c)
      | some (key, rest) => .ok (some key, rest)
    else
      let key := Text.trimEnd ((c :: r).takeWhile fun d => !endsBareKey d)
      .ok (if key.isEmpty then none else some key, (c :: r).dropWhile fun d => !endsBareKey d)

theorem length_le_of_splitKey {text rest : List Char} {key : Option (List Char)}
    (h : splitKey text = .ok (key, rest)) : rest.length ≤ text.length := by
  unfold splitKey at h
  split at h
  · cases h
    exact Nat.le_refl _
  · split at h
    · split at h
      · cases h
      · rename_i hb
        cases h
        exact Nat.le_succ_of_le (Nat.le_of_lt (length_of_breakAt? hb))
    · cases h
      exact (List.dropWhile_sublist _).length_le

/-- Indices are below `2 ^ 64`. -/
def indexLimit : Nat := 18446744073709551616

/-- The index that a text writes: digits only, and below the limit. -/
def index? (text : List Char) : Option Nat :=
  if text.isEmpty ∨ text.any (fun c => !c.isDigit) then none
  else
    let i := Nat.ofDigitChars 10 text 0
    if i < indexLimit then some i else none

/-- The indices at the start of a text, and the text after them. Blanks may
surround an index inside its brackets. -/
def splitIndices (text : List Char) : Except ConditionError (List Nat × List Char) :=
  match text with
  | [] => .ok ([], [])
  | c :: body =>
    if c = '[' then
      match _h : breakAt? ']' body with
      | none => .error .unterminatedBracket
      | some (inner, rest) =>
        match index? (Text.trim inner) with
        | none => .error (.invalidIndex (String.ofList inner))
        | some i => do
          let (indices, rest) ← splitIndices rest
          return (i :: indices, rest)
    else .ok ([], c :: body)
termination_by text.length
decreasing_by exact Nat.lt_succ_of_lt (length_of_breakAt? _h)

theorem length_le_of_splitIndices {text rest : List Char} {indices : List Nat}
    (h : splitIndices text = .ok (indices, rest)) : rest.length ≤ text.length := by
  induction text using splitIndices.induct generalizing indices with
  | case1 =>
    rw [splitIndices] at h
    cases h
    exact Nat.le_refl _
  | case2 body hb =>
    rw [splitIndices, if_pos rfl] at h
    split at h <;> simp_all
  | case3 body inner rest' hb hi =>
    rw [splitIndices, if_pos rfl] at h
    split at h <;> simp_all
  | case4 body inner rest' hb i hi ih =>
    rw [splitIndices, if_pos rfl] at h
    have hlt := length_of_breakAt? hb
    split at h
    · cases h
    · rename_i inner₂ rest₂ hb₂
      obtain ⟨rfl, rfl⟩ : inner = inner₂ ∧ rest' = rest₂ := by simpa [hb] using hb₂
      rw [hi] at h
      cases hs : splitIndices rest' with
      | error e => simp [hs, bind, Except.bind] at h
      | ok p =>
        obtain ⟨more, rest₃⟩ := p
        simp only [hs, bind, Except.bind, pure, Except.pure, Except.ok.injEq, Prod.mk.injEq] at h
        obtain ⟨-, rfl⟩ := h
        have := ih hs
        simp only [List.length_cons]
        omega
  | case5 c body hc =>
    rw [splitIndices, if_neg hc] at h
    cases h
    exact Nat.le_refl _

/-! ### Steps and paths -/

/-- A step with a key, with indices, or with both. -/
def Segment.ofParts (key : Option (List Char)) (indices : List Nat) :
    Except ConditionError Segment :=
  match key, indices with
  | none, [] => .error .emptySegment
  | key, indices => .ok ⟨key.map String.ofList, indices⟩

/-- The step at the start of a text, and the text after it, which is empty or
begins with a point. -/
def splitSegment (text : List Char) : Except ConditionError (Segment × List Char) := do
  let (key, rest) ← splitKey (Text.trimStart text)
  let (indices, rest) ← splitIndices rest
  let rest := Text.trimStart rest
  if rest.isEmpty ∨ rest.head? = some '.' then
    let segment ← Segment.ofParts key indices
    return (segment, rest)
  else throw (.unexpected (String.ofList rest))

theorem length_trimStart_le (text : List Char) : (Text.trimStart text).length ≤ text.length :=
  (List.dropWhile_sublist _).length_le

theorem length_le_of_splitSegment {text rest : List Char} {segment : Segment}
    (h : splitSegment text = .ok (segment, rest)) : rest.length ≤ text.length := by
  unfold splitSegment at h
  cases hk : splitKey (Text.trimStart text) with
  | error e => simp [hk, bind, Except.bind] at h
  | ok p =>
    obtain ⟨key, r⟩ := p
    cases hi : splitIndices r with
    | error e => simp [hk, hi, bind, Except.bind] at h
    | ok p =>
      obtain ⟨indices, t⟩ := p
      simp only [hk, hi, bind, Except.bind, pure, Except.pure] at h
      split at h
      · cases hs : Segment.ofParts key indices with
        | error e => simp [hs] at h
        | ok s =>
          simp only [hs, Except.ok.injEq, Prod.mk.injEq] at h
          obtain ⟨-, rfl⟩ := h
          exact Nat.le_trans (length_trimStart_le _) (Nat.le_trans (length_le_of_splitIndices hi)
            (Nat.le_trans (length_le_of_splitKey hk) (length_trimStart_le _)))
      · cases h

/-- The steps of a path. -/
def parseSegments (text : List Char) : Except ConditionError (List Segment) :=
  match _h : splitSegment text with
  | .error e => .error e
  | .ok (segment, rest) =>
    match _hr : rest with
    | [] => .ok [segment]
    | _ :: next => do
      let segments ← parseSegments next
      return segment :: segments
termination_by text.length
decreasing_by
  subst _hr
  exact Nat.lt_of_succ_le (length_le_of_splitSegment _h)

end JsonSieve
