import JsonSieve.Proofs.Condition.Refusal

/-!
# The quoted keys of a path are the quoted regions of the scan

The scan for the operator and the reader of paths look for quotation marks on their own. The
scan goes over all characters with three states; the reader cuts a path at quotation marks,
points and brackets. Before an operator that the scan has found they agree
(`JsonSieve.scan_agrees_with_path`):

* the reader never misses a closing quotation mark, since the scan would have been between
  quotation marks when it came to the operator (`JsonSieve.run_of_unterminatedQuote`);
* if the path is read, all operator characters that the scan has walked over stand between
  the quotation marks of a key that is read (`JsonSieve.QuotedKey`).

The first part is an induction over the steps that are read before the reader fails: each of
them leaves the scan in a step, and the point after it leads both to where a step begins.
-/

namespace JsonSieve

open ScanState Grammar

/-! ### The reader at a quotation mark without its partner -/

/-- **Where the reader misses a closing quotation mark**, the scan is between quotation marks
at the end. -/
theorem run_of_unterminatedQuote {t : List Char} {q : Char}
    (h : parseSegments t = .error (.unterminatedQuote q)) (hs : start.Passes t) :
    start.run t = quoted q := by
  induction t using parseSegments.induct with
  | case1 t e he =>
    -- the step that fails begins with the quotation mark
    rw [parseSegments_of_error he] at h
    cases h
    obtain ⟨w, hw, ht⟩ := Text.exists_eq_trimStart t
    rcases error_of_splitSegment he with
      ⟨q', r, hr, hq, hmem, hmark⟩ | hmark | ⟨_, hmark⟩ | hmark | ⟨_, hmark⟩ <;> cases hmark
    have hopen : start.next q = quoted q := by simp [ScanState.next, hq]
    rw [ht, hr, run_append, run_start_blanks hw, run_cons, hopen, run_quoted hmem]
  | case2 t segment he =>
    rw [parseSegments_of_last he] at h
    cases h
  | case3 t segment c next he _ ih =>
    -- a step that is read leaves the scan in it, and the point leads out of it
    obtain ⟨s, hst, -, hend⟩ := exists_of_splitSegment he hs
    obtain rfl : c = '.' := hend.eq_point
    rw [hst, passes_append, s.run_text] at hs
    rw [parseSegments_of_point he] at h
    rw [hst, run_append, s.run_text, run_cons]
    refine ih ?_ hs.2.2
    cases hn : parseSegments next with
    | ok rest => simp [hn, Except.map] at h
    | error e =>
      rw [hn] at h
      exact h

/-- No other part of a condition says so. -/
theorem parseSegments_of_ofParts_unterminatedQuote {before rest : List Char} {q : Char}
    (h : Condition.ofParts before rest = .error (.unterminatedQuote q)) :
    parseSegments (Text.trim before) = .error (.unterminatedQuote q) := by
  unfold Condition.ofParts at h
  split at h
  · cases h
  · dsimp only at h
    split at h
    · cases h
    · rcases bind_eq_error_iff.mp h with h | ⟨_, _, h⟩
      · exact h
      · cases h

/-! ### Quoted keys that have been read -/

/-- The reader begins after blanks. -/
theorem parseSegments_blanks (w : Blanks) (t : List Char) :
    parseSegments (w.1 ++ t) = parseSegments t := by
  have hsplit : splitSegment (w.1 ++ t) = splitSegment t := by
    rw [splitSegment, splitSegment, Text.trimStart, List.dropWhile_append_of_pos w.2]
    rfl
  cases h : splitSegment t with
  | error e => rw [parseSegments_of_error h, parseSegments_of_error (hsplit.trans h)]
  | ok p =>
    obtain ⟨segment, _ | ⟨c, next⟩⟩ := p
    · rw [parseSegments_of_last h, parseSegments_of_last (hsplit.trans h)]
    · rw [parseSegments_of_point h, parseSegments_of_point (hsplit.trans h)]

/-- **A quoted key of a path** that is read as some segments. -/
structure QuotedKey (path : List Char) (segments : List Segment) where
  /-- The text before the opening quotation mark. -/
  before : List Char
  /-- The quotation mark. -/
  quote : Char
  /-- The key. -/
  key : List Char
  /-- The text after the closing quotation mark. -/
  after : List Char
  /-- The segments before the key. -/
  earlier : List Segment
  /-- The indices after the key. -/
  indices : List Nat
  /-- The segments after that. -/
  later : List Segment
  /-- Nothing else is in the path, -/
  path_eq : path = before ++ quote :: (key ++ quote :: after)
  /-- and nothing else is read. -/
  segments_eq : segments = earlier ++ ⟨some (String.ofList key), indices⟩ :: later
  /-- The quotation mark is one. -/
  isQuote_quote : isQuote quote = true
  /-- The next quotation mark of its kind is the closing one. -/
  quote_not_mem : quote ∉ key
  /-- When the reader comes to the quotation mark it has read the segments before the key, and
  it goes on as if the path began there. -/
  parse_before : ∀ rest, parseSegments (before ++ rest) = (parseSegments rest).map (earlier ++ ·)

namespace QuotedKey

variable {path : List Char} {segments : List Segment}

/-- Where the opening quotation mark stands in the path. -/
def opening (k : QuotedKey path segments) : Nat := k.before.length

/-- Where the closing quotation mark stands in the path. -/
def closing (k : QuotedKey path segments) : Nat := k.before.length + k.key.length + 1

/-- A quoted key at the start of a path, blanks apart. -/
def first (before : Blanks) {q : Char} {key : List Char} (hq : isQuote q = true) (hk : q ∉ key)
    (indices : List Index) (after : Blanks) (next : List Char) (later : List Segment) :
    QuotedKey ((⟨before, .quoted q key indices hq hk, after⟩ : Spaced).text ++ next)
      ((Step.quoted q key indices hq hk).segment :: later) where
  before := before.1
  quote := q
  key := key
  after := Index.texts indices ++ (after.1 ++ next)
  earlier := []
  indices := indices.map Index.value
  later := later
  path_eq := by simp [Spaced.text, Step.text]
  segments_eq := rfl
  isQuote_quote := hq
  quote_not_mem := hk
  parse_before rest := by
    rw [parseSegments_blanks before]
    cases parseSegments rest <;> rfl

/-- A quoted key after one more step. -/
def cons (s : Spaced) (k : QuotedKey path segments) :
    QuotedKey (s.text ++ '.' :: path) (s.step.segment :: segments) where
  before := s.text ++ '.' :: k.before
  quote := k.quote
  key := k.key
  after := k.after
  earlier := s.step.segment :: k.earlier
  indices := k.indices
  later := k.later
  path_eq := by rw [List.append_assoc, List.cons_append, ← k.path_eq]
  segments_eq := by rw [List.cons_append, ← k.segments_eq]
  isQuote_quote := k.isQuote_quote
  quote_not_mem := k.quote_not_mem
  parse_before rest := by
    rw [List.append_assoc, List.cons_append,
      parseSegments_of_point (splitSegment_text s (Or.inr ⟨_, rfl⟩)), k.parse_before]
    cases parseSegments rest <;> rfl

theorem opening_cons (s : Spaced) (k : QuotedKey path segments) :
    (k.cons s).opening = s.text.length + 1 + k.opening := by
  simp [opening, cons]
  omega

theorem closing_cons (s : Spaced) (k : QuotedKey path segments) :
    (k.cons s).closing = s.text.length + 1 + k.closing := by
  simp [closing, cons]
  omega

end QuotedKey

namespace Grammar

/-- An operator character of a step is in a quoted key, -/
theorem Step.eq_quoted_of_operator (s : Step) {i : Nat} {c : Char} (hi : s.text[i]? = some c)
    (hc : isOperatorChar c = true) :
    ∃ q key indices hq hk, s = .quoted q key indices hq hk ∧ 0 < i ∧ i < key.length + 1 := by
  have hunquoted : c ∉ s.unquoted := fun hmem =>
    absurd (s.not_operator_of_mem_unquoted hmem) (ne_false_of_eq_true hc)
  cases s with
  | quoted q key indices hq hk =>
    have hquote : q ≠ c := by
      rintro rfl
      exact absurd (isOperatorChar_eq_false_of_isQuote hq) (ne_false_of_eq_true hc)
    refine ⟨q, key, indices, hq, hk, rfl, ?_⟩
    rw [Step.text] at hi
    cases i with
    | zero => exact absurd (by simpa using hi) hquote
    | succ j =>
      refine ⟨j.succ_pos, Nat.succ_lt_succ (Nat.lt_of_not_le fun hj => ?_)⟩
      -- after the key there are the closing quotation mark and the indices
      rw [List.getElem?_cons_succ, List.getElem?_append_right hj] at hi
      rcases List.mem_cons.mp (List.mem_of_getElem? hi) with rfl | hmem
      · exact hquote rfl
      · exact hunquoted hmem
  | bare key gap indices h hgap => exact absurd (List.mem_of_getElem? hi) hunquoted
  | indexed first more => exact absurd (List.mem_of_getElem? hi) hunquoted

/-- also with blanks around the step and more after it. -/
theorem Spaced.exists_quotedKey (s : Spaced) {i : Nat} {c : Char} (hi : s.text[i]? = some c)
    (hc : isOperatorChar c = true) (rest : List Char) (later : List Segment) :
    ∃ k : QuotedKey (s.text ++ rest) (s.step.segment :: later), k.opening < i ∧ i < k.closing := by
  obtain ⟨before, step, after⟩ := s
  have hblank : ∀ w : Blanks, c ∉ w.1 := fun w hmem =>
    absurd (isOperatorChar_eq_false_of_isBlank (w.2 c hmem)) (ne_false_of_eq_true hc)
  rw [Spaced.text] at hi
  by_cases hbefore : i < before.1.length
  · rw [List.getElem?_append_left hbefore] at hi
    exact absurd (List.mem_of_getElem? hi) (hblank before)
  rw [List.getElem?_append_right (Nat.le_of_not_lt hbefore)] at hi
  by_cases hafter : step.text.length ≤ i - before.1.length
  · rw [List.getElem?_append_right hafter] at hi
    exact absurd (List.mem_of_getElem? hi) (hblank after)
  rw [List.getElem?_append_left (Nat.lt_of_not_le hafter)] at hi
  obtain ⟨q, key, indices, hq, hk, rfl, hopening, hclosing⟩ := step.eq_quoted_of_operator hi hc
  refine ⟨.first before hq hk indices after rest later, ?_, ?_⟩
  · simp only [QuotedKey.opening, QuotedKey.first]
    omega
  · simp only [QuotedKey.closing, QuotedKey.first]
    omega

/-- **Operator characters of a path stand in quoted keys.** -/
theorem Steps.exists_quotedKey (p : Steps) {i : Nat} {c : Char} (hi : p.text[i]? = some c)
    (hc : isOperatorChar c = true) :
    ∃ k : QuotedKey p.text p.segments, k.opening < i ∧ i < k.closing := by
  induction p generalizing i with
  | last s =>
    have h := s.exists_quotedKey hi hc [] []
    rwa [List.append_nil] at h
  | cons s p ih =>
    rw [Steps.text] at hi
    rw [Steps.text, Steps.segments]
    rcases Nat.lt_trichotomy i s.text.length with hlt | rfl | hgt
    · rw [List.getElem?_append_left hlt] at hi
      exact s.exists_quotedKey hi hc ('.' :: p.text) p.segments
    · -- the point between the steps
      rw [List.getElem?_append_right (Nat.le_refl _), Nat.sub_self] at hi
      cases hi
      cases hc
    · obtain ⟨j, rfl⟩ : ∃ j, i = s.text.length + 1 + j := ⟨i - (s.text.length + 1), by omega⟩
      have hj : s.text.length + 1 + j - s.text.length = j + 1 := by omega
      rw [List.getElem?_append_right (by omega), hj, List.getElem?_cons_succ] at hi
      obtain ⟨k, hopening, hclosing⟩ := ih hi
      refine ⟨k.cons s, ?_, ?_⟩
      · rw [k.opening_cons]
        omega
      · rw [k.closing_cons]
        omega

end Grammar

/-! ### Agreement -/

/-- Trimming does not open a region. -/
theorem IsClosed.trim {text : List Char} (h : IsClosed text) : IsClosed (Text.trim text) := by
  obtain ⟨w, w', hw, hw', htext⟩ := Text.exists_eq_trim text
  have hpasses := h.passes
  have hrun := h.run_ne_quoted
  rw [htext, passes_append, run_start_blanks hw, passes_append] at hpasses
  rw [htext, run_append, run_start_blanks hw, run_append] at hrun
  refine (isClosed_or_isUnclosed _ hpasses.2.1).resolve_right ?_
  rintro ⟨q, hopen⟩
  -- no blank closes a region
  have hq : q ∉ w' := fun hmem =>
    absurd (isQuote_eq_false_of_isBlank (hw' q hmem)) (ne_false_of_eq_true hopen.isQuote)
  refine hrun q ?_
  rw [hopen.run, run_quoted hq]

/-- **The scan and the reader agree on quoted regions.** Let the scan find an operator after
`before`. Then the reader never misses a closing quotation mark in the path before it, and no
reading of the whole text says so. If the path is read, then every operator character in it
stands strictly between the quotation marks of a quoted key that is read. And the scan goes
over the path alone without meeting an operator, and ends outside quotation marks. -/
theorem scan_agrees_with_path (text before rest : List Char) (x : Char) (state : ScanState)
    (h : breakAtOperator .start text = (before, x :: rest, state)) :
    (∀ q, parseSegments (Text.trim before) ≠ .error (.unterminatedQuote q)) ∧
    (∀ s : String, Text.trim s.toList = text →
      ∀ q, Condition.parse s ≠ .error (.unterminatedQuote q)) ∧
    (∀ segments, parseSegments (Text.trim before) = .ok segments →
      ∀ i c, (Text.trim before)[i]? = some c → isOperatorChar c = true →
        ∃ k : QuotedKey (Text.trim before) segments, k.opening < i ∧ i < k.closing) ∧
    ∃ last, breakAtOperator .start (Text.trim before) = (Text.trim before, [], last) ∧
      ∀ q, last ≠ .quoted q := by
  have hclosed : IsClosed (Text.trim before) := (isClosed_of_breakAtOperator h).1.trim
  have hpath : ∀ q, parseSegments (Text.trim before) ≠ .error (.unterminatedQuote q) :=
    fun q hq => hclosed.run_ne_quoted q (run_of_unterminatedQuote hq hclosed.passes)
  refine ⟨hpath, ?_, ?_, start.run (Text.trim before), ?_, hclosed.run_ne_quoted⟩
  · rintro s rfl q hs
    rw [Condition.parse, ofChars_of_operator h] at hs
    exact hpath q (parseSegments_of_ofParts_unterminatedQuote hs)
  · intro segments hread i c hi hc
    obtain ⟨p, htext, rfl⟩ := exists_steps_of_parseSegments hread hclosed.passes
    rw [← htext] at hi ⊢
    exact p.exists_quotedKey hi hc
  · have hscan := breakAtOperator_of_passes hclosed.passes []
    rwa [breakAtOperator_nil, List.append_nil] at hscan

/-- A bare key with a quotation mark in it, and a key between quotation marks of the other kind
that holds a point, a quotation mark and an operator. -/
def nestedPath : List Char := "it's[0] . \"a.'<b\"[ 7 ]".toList

/-- The quotation mark in the bare key opens nothing, and the operator in the quoted key is
none. -/
theorem scan_agrees_with_nestedPath :
    breakAtOperator .start (nestedPath ++ " <= 1".toList) =
        (nestedPath ++ [' '], "<= 1".toList, .inside) ∧
      (∀ q, parseSegments nestedPath ≠ .error (.unterminatedQuote q)) ∧
      (∀ q, Condition.parse "it's[0] . \"a.'<b\"[ 7 ] <= 1" ≠ .error (.unterminatedQuote q)) ∧
      ∃ k : QuotedKey nestedPath [⟨some "it's", [0]⟩, ⟨some "a.'<b", [7]⟩],
        k.opening < 14 ∧ 14 < k.closing := by
  have hscan : breakAtOperator .start (nestedPath ++ " <= 1".toList) =
      (nestedPath ++ [' '], "<= 1".toList, .inside) := by decide +kernel
  have htrim : Text.trim (nestedPath ++ [' ']) = nestedPath := by decide +kernel
  have hread : parseSegments nestedPath = .ok [⟨some "it's", [0]⟩, ⟨some "a.'<b", [7]⟩] := by
    decide +kernel
  obtain ⟨hpath, hparse, hkeys, -⟩ := scan_agrees_with_path _ _ _ _ _ hscan
  rw [htrim] at hpath hkeys
  exact ⟨hscan, hpath, hparse _ (by decide +kernel),
    hkeys _ hread 14 '<' (by decide +kernel) (by decide)⟩

end JsonSieve
