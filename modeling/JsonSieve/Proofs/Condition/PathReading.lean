import JsonSieve.Proofs.Condition.Quotation

/-!
# Reading the paths of the grammar

The path reader cuts a path at quotation marks, points and brackets. Here it is
compared with the grammar, in both directions:

* every path of the grammar is read as the steps that it writes
  (`JsonSieve.Grammar.parseSegments_text`);
* a text that is read is a path of the grammar, provided that the operator scan
  walks over it (`JsonSieve.Grammar.exists_steps_of_parseSegments`).

The proviso is needed for bare keys alone: the reader does not look for operator
characters in them, because the scan has found the first one before. Nowhere
else does the reader depend on the scan.
-/

namespace JsonSieve

/-! ### Cutting at a character -/

theorem breakAt?_append {c : Char} {a : List Char} (ha : c ∉ a) (b : List Char) :
    breakAt? c (a ++ c :: b) = some (a, b) := by
  induction a with
  | nil => simp [breakAt?]
  | cons d a ih =>
    rw [List.mem_cons, not_or] at ha
    rw [List.cons_append, breakAt?, if_neg (Ne.symm ha.1), ih ha.2]
    rfl

theorem not_mem_of_breakAt?_eq_none {c : Char} {t : List Char} (h : breakAt? c t = none) :
    c ∉ t := by
  intro hmem
  obtain ⟨a, b, rfl, ha⟩ := List.eq_append_cons_of_mem hmem
  rw [breakAt?_append ha] at h
  cases h

theorem eq_append_of_breakAt? {c : Char} {t a b : List Char} (h : breakAt? c t = some (a, b)) :
    t = a ++ c :: b ∧ c ∉ a := by
  induction t generalizing a with
  | nil => cases h
  | cons d t ih =>
    rw [breakAt?] at h
    split at h
    · rename_i hd
      cases h
      exact ⟨by rw [hd]; rfl, List.not_mem_nil⟩
    · rename_i hd
      obtain ⟨⟨a', b'⟩, ht, he⟩ := Option.map_eq_some_iff.mp h
      cases he
      obtain ⟨rfl, hc⟩ := ih ht
      exact ⟨rfl, by rw [List.mem_cons, not_or]; exact ⟨Ne.symm hd, hc⟩⟩

/-! ### Indices -/

theorem indexLimit_eq : indexLimit = Nat.pow 2 64 := rfl

/-- **The texts that are indices**: digits, at least one, of a number below the
limit. -/
theorem index?_eq_some_iff {t : List Char} {i : Nat} :
    index? t = some i ↔
      t ≠ [] ∧ (∀ c ∈ t, c.isDigit = true) ∧ Nat.ofDigitChars 10 t 0 < Nat.pow 2 64 ∧
        i = Nat.ofDigitChars 10 t 0 := by
  rw [← indexLimit_eq]
  unfold index?
  by_cases hd : t.isEmpty = true ∨ (t.any fun c => !c.isDigit) = true
  · rw [if_pos hd]
    constructor
    · intro h
      cases h
    · rintro ⟨hne, hall, -⟩
      rcases hd with hd | hd
      · exact absurd (List.isEmpty_iff.mp hd) hne
      · obtain ⟨c, hc, hcd⟩ := List.any_eq_true.mp hd
        simp [hall c hc] at hcd
  · rw [if_neg hd]
    rw [not_or] at hd
    have hall : ∀ c ∈ t, c.isDigit = true := by simpa using hd.2
    have hne : t ≠ [] := by simpa using hd.1
    dsimp only
    split
    · rename_i hlt
      rw [Option.some.injEq]
      constructor
      · rintro rfl
        exact ⟨hne, hall, hlt, rfl⟩
      · rintro ⟨-, -, -, rfl⟩
        rfl
    · rename_i hlt
      constructor
      · intro h
        cases h
      · rintro ⟨-, -, h, -⟩
        exact absurd h hlt

/-- Opens an index. -/
def opensIndex (c : Char) : Bool := c == '['

theorem splitIndices_of_stops {t : List Char} (h : Stops opensIndex t) :
    splitIndices t = .ok ([], t) := by
  cases t with
  | nil => rw [splitIndices]
  | cons c t =>
    have hc : c ≠ '[' := by simpa [opensIndex] using h
    rw [splitIndices, if_neg hc]

/-- The reader of indices at a bracket. -/
theorem splitIndices_bracket (body : List Char) :
    splitIndices ('[' :: body) = match breakAt? ']' body with
      | none => .error .unterminatedBracket
      | some (inner, rest) =>
        match index? (Text.trim inner) with
        | none => .error (.invalidIndex (String.ofList inner))
        | some i => (splitIndices rest).map fun p => (i :: p.1, p.2) := by
  rw [splitIndices, if_pos rfl]
  split
  · rename_i hb
    rw [hb]
  · rename_i inner rest hb
    rw [hb]
    dsimp only
    cases index? (Text.trim inner) with
    | none => rfl
    | some i => cases splitIndices rest <;> rfl

theorem splitIndices_of_index {body inner rest r : List Char} {i : Nat} {is : List Nat}
    (hb : breakAt? ']' body = some (inner, rest)) (hi : index? (Text.trim inner) = some i)
    (hr : splitIndices rest = .ok (is, r)) : splitIndices ('[' :: body) = .ok (i :: is, r) := by
  rw [splitIndices_bracket, hb]
  dsimp only
  rw [hi, hr]
  rfl

namespace Grammar

open ScanState

theorem Index.isTrimmed_digits (i : Index) : Text.IsTrimmed i.digits :=
  Text.isTrimmed_of_not_blank fun c hc => Text.isBlank_eq_false_of_isDigit (i.isDigit c hc)

theorem Index.trim_inner (i : Index) : Text.trim i.inner = i.digits :=
  Text.trim_append i.before.2 i.after.2 i.isTrimmed_digits

theorem Index.index?_trim_inner (i : Index) : index? (Text.trim i.inner) = some i.value := by
  rw [i.trim_inner]
  exact index?_eq_some_iff.mpr ⟨i.digits_ne_nil, i.isDigit, i.lt_limit, rfl⟩

theorem Index.bracket_not_mem_inner (i : Index) : ']' ∉ i.inner := by
  simp only [Index.inner, List.mem_append, not_or]
  exact ⟨fun h => absurd (i.before.2 _ h) (by decide), fun h => absurd (i.isDigit _ h) (by decide),
    fun h => absurd (i.after.2 _ h) (by decide)⟩

/-- What is between brackets and is read as an index is one of the grammar. -/
theorem Index.exists_of_index? {inner : List Char} {n : Nat}
    (h : index? (Text.trim inner) = some n) : ∃ i : Index, i.inner = inner ∧ i.value = n := by
  obtain ⟨hne, hd, hlt, rfl⟩ := index?_eq_some_iff.mp h
  obtain ⟨w, w', hw, hw', he⟩ := Text.exists_eq_trim inner
  exact ⟨⟨⟨w, hw⟩, Text.trim inner, ⟨w', hw'⟩, hne, hd, hlt⟩, he.symm, rfl⟩

/-- **Indices are read back.** -/
theorem splitIndices_texts (is : List Index) {r : List Char} (hr : Stops opensIndex r) :
    splitIndices (Index.texts is ++ r) = .ok (is.map Index.value, r) := by
  induction is with
  | nil => exact splitIndices_of_stops hr
  | cons i is ih =>
    have hcut : breakAt? ']' (i.inner ++ ']' :: (Index.texts is ++ r)) =
        some (i.inner, Index.texts is ++ r) := breakAt?_append i.bracket_not_mem_inner _
    have h := splitIndices_of_index hcut i.index?_trim_inner ih
    simpa [Index.text] using h

/-- **What is read as indices is indices.** -/
theorem exists_of_splitIndices {t r : List Char} {ns : List Nat}
    (h : splitIndices t = .ok (ns, r)) :
    ∃ is : List Index, t = Index.texts is ++ r ∧ is.map Index.value = ns ∧ Stops opensIndex r := by
  induction t using splitIndices.induct generalizing ns with
  | case1 =>
    rw [splitIndices] at h
    cases h
    exact ⟨[], rfl, rfl, stops_nil⟩
  | case2 body hb =>
    -- the bracket is not closed
    rw [splitIndices_bracket, hb] at h
    cases h
  | case3 body inner rest hb hi =>
    -- no index stands between the brackets
    rw [splitIndices_bracket, hb] at h
    dsimp only at h
    rw [hi] at h
    cases h
  | case4 body inner rest hb n hi ih =>
    rw [splitIndices_bracket, hb] at h
    dsimp only at h
    rw [hi] at h
    cases hs : splitIndices rest with
    | error e =>
      rw [hs] at h
      cases h
    | ok p =>
      obtain ⟨ms, r'⟩ := p
      rw [hs] at h
      cases h
      obtain ⟨is, rfl, rfl, hr⟩ := ih hs
      obtain ⟨i, rfl, rfl⟩ := Index.exists_of_index? hi
      obtain ⟨rfl, -⟩ := eq_append_of_breakAt? hb
      exact ⟨i :: is, by simp [Index.text], rfl, hr⟩
  | case5 c body hc =>
    rw [splitIndices, if_neg hc] at h
    cases h
    exact ⟨[], rfl, rfl, stops_cons.mpr (by simpa [opensIndex] using hc)⟩

/-! ### Keys -/

/-- **A quoted key is read back**, whatever it holds but its quotation mark. -/
theorem splitKey_quoted {q : Char} {key : List Char} (hq : isQuote q = true) (hk : q ∉ key)
    (r : List Char) : splitKey (q :: (key ++ q :: r)) = .ok (some key, r) := by
  rw [splitKey, if_pos hq, breakAt?_append hk]

theorem splitKey_of_not_quote {c : Char} (hc : isQuote c = false) (t : List Char) :
    splitKey (c :: t) =
      .ok (if (Text.trimEnd ((c :: t).takeWhile fun d => !endsBareKey d)).isEmpty then none
        else some (Text.trimEnd ((c :: t).takeWhile fun d => !endsBareKey d)),
        (c :: t).dropWhile fun d => !endsBareKey d) := by
  rw [splitKey, if_neg (by simp [hc])]

theorem splitKey_bracket (t : List Char) : splitKey ('[' :: t) = .ok (none, '[' :: t) := by
  rw [splitKey_of_not_quote (by decide)]
  simp [endsBareKey]

theorem not_endsBareKey {t : List Char} (hp : '.' ∉ t) (hb : '[' ∉ t) :
    ∀ c ∈ t, (!endsBareKey c) = true := by
  intro c hc
  have h1 : c ≠ '.' := fun h => hp (h ▸ hc)
  have h2 : c ≠ '[' := fun h => hb (h ▸ hc)
  simp [endsBareKey, h1, h2]

/-- **A bare key is read back** from before a point or a bracket, without the
blanks in between. -/
theorem splitKey_bare {key : List Char} (h : IsBareKey key) (gap : Blanks) {r : List Char}
    (hr : Stops (fun d => !endsBareKey d) r) : splitKey (key ++ (gap.1 ++ r)) =
      .ok (some key, r) := by
  have hgap : ∀ c ∈ gap.1, (!endsBareKey c) = true :=
    not_endsBareKey (fun hc => ne_point_of_isBlank (gap.2 _ hc) rfl)
      fun hc => absurd (gap.2 _ hc) (by decide)
  -- the reader takes the key and the blanks in one run, and then trims it
  have hrun : ∀ c ∈ key ++ gap.1, (!endsBareKey c) = true := fun c hc =>
    (List.mem_append.mp hc).elim
      (not_endsBareKey h.point_not_mem h.bracket_not_mem c) (hgap c)
  have htake := takeWhile_append_of_stops hrun hr
  have hdrop := dropWhile_append_of_stops hrun hr
  have htrim : Text.trimEnd (key ++ gap.1) = key := Text.trimEnd_append gap.2 h.isTrimmed.last
  rw [List.append_assoc] at htake hdrop
  cases hkey : key with
  | nil => exact absurd hkey h.ne_nil
  | cons c k =>
    have hq : isQuote c = false := h.head_not_quote c (by rw [hkey]; rfl)
    rw [hkey] at htake hdrop htrim
    rw [List.cons_append, splitKey_of_not_quote hq, ← List.cons_append, htake, hdrop, htrim]
    rfl

/-! ### Steps -/

/-- Where a step may end: at the end of the path, or before a point. -/
def EndsStep (r : List Char) : Prop := r = [] ∨ ∃ next, r = '.' :: next

theorem EndsStep.eq_point {c : Char} {r : List Char} (h : EndsStep (c :: r)) : c = '.' := by
  rcases h with hnil | ⟨next, hcons⟩
  · cases hnil
  · exact (List.cons.inj hcons).1

theorem EndsStep.stops {p : Char → Bool} (hp : p '.' = false) {r : List Char}
    (hr : EndsStep r) : Stops p r := by
  rcases hr with rfl | ⟨next, rfl⟩
  · exact stops_nil
  · exact stops_cons.mpr hp

/-- Before the end of a step blanks do not begin an index. -/
theorem stops_opensIndex_blanks (w : Blanks) {r : List Char} (hr : EndsStep r) :
    Stops opensIndex (w.1 ++ r) := by
  obtain ⟨w, hw⟩ := w
  cases w with
  | nil => exact hr.stops rfl
  | cons c w =>
    have hc := hw c (List.mem_cons_self ..)
    refine stops_cons.mpr ?_
    simp only [opensIndex, beq_eq_false_iff_ne, ne_eq]
    rintro rfl
    exact absurd hc (by decide)

/-- The reader of steps in terms of its parts. -/
theorem splitSegment_of_parts {t u v r : List Char} {k : Option (List Char)} {is : List Nat}
    {segment : Segment} (hk : splitKey (Text.trimStart t) = .ok (k, u))
    (hi : splitIndices u = .ok (is, v)) (hv : Text.trimStart v = r) (hr : EndsStep r)
    (hs : Segment.ofParts k is = .ok segment) : splitSegment t = .ok (segment, r) := by
  have hend : r.isEmpty = true ∨ r.head? = some '.' := by
    rcases hr with rfl | ⟨next, rfl⟩
    · exact Or.inl rfl
    · exact Or.inr rfl
  simp only [splitSegment, hk, hi, hv, hs, if_pos hend, bind, Except.bind, pure, Except.pure]

/-- The parts of a step that has been read. -/
theorem exists_parts_of_splitSegment {t r : List Char} {segment : Segment}
    (h : splitSegment t = .ok (segment, r)) :
    ∃ key u is v, splitKey (Text.trimStart t) = .ok (key, u) ∧ splitIndices u = .ok (is, v) ∧
      Text.trimStart v = r ∧ EndsStep r ∧ Segment.ofParts key is = .ok segment := by
  unfold splitSegment at h
  cases hk : splitKey (Text.trimStart t) with
  | error e => simp [hk, bind, Except.bind] at h
  | ok p =>
    obtain ⟨key, u⟩ := p
    cases hi : splitIndices u with
    | error e => simp [hk, hi, bind, Except.bind] at h
    | ok p =>
      obtain ⟨is, v⟩ := p
      simp only [hk, hi, bind, Except.bind, pure, Except.pure] at h
      split at h
      · rename_i hend
        cases hs : Segment.ofParts key is with
        | error e => simp [hs] at h
        | ok s =>
          simp only [hs, Except.ok.injEq, Prod.mk.injEq] at h
          obtain ⟨rfl, hvr⟩ := h
          refine ⟨key, u, is, v, rfl, hi, hvr, ?_, hs⟩
          rw [hvr] at hend
          cases r with
          | nil => exact Or.inl rfl
          | cons c r =>
            have hc : c = '.' := by simpa using hend
            exact Or.inr ⟨r, by rw [hc]⟩
      · cases h

theorem Step.stops_isBlank_text (s : Step) (r : List Char) :
    Stops Text.isBlank (s.text ++ r) := by
  obtain ⟨c, t, ht, hc⟩ := s.exists_text_eq_cons
  rw [ht]
  exact stops_cons.mpr hc

/-- **A step of the grammar is read back**, up to where it ends. -/
theorem splitSegment_text (s : Spaced) {r : List Char} (hr : EndsStep r) :
    splitSegment (s.text ++ r) = .ok (s.step.segment, r) := by
  obtain ⟨before, step, after⟩ := s
  have hstart : Text.trimStart ((⟨before, step, after⟩ : Spaced).text ++ r) =
      step.text ++ (after.1 ++ r) := by
    simp only [Spaced.text, List.append_assoc]
    exact Text.trimStart_append before.2 (step.stops_isBlank_text _)
  have hend : Text.trimStart (after.1 ++ r) = r :=
    Text.trimStart_append after.2 (hr.stops (by decide))
  have hstop := stops_opensIndex_blanks after hr
  cases step with
  | quoted q key indices hq hk =>
    refine splitSegment_of_parts (k := some key) ?_ (splitIndices_texts indices hstop) hend hr
      rfl
    rw [hstart, Step.text, List.cons_append, List.append_assoc, List.cons_append,
      splitKey_quoted hq hk]
  | bare key gap indices h hgap =>
    cases indices with
    | nil =>
      -- the blanks after the step go with the key
      refine splitSegment_of_parts (k := some key) (u := r) (v := r) ?_
        (splitIndices_of_stops (hr.stops rfl))
        (Text.trimStart_eq_self (hr.stops (by decide))) hr rfl
      rw [hstart, Step.text, hgap rfl]
      simpa [noBlanks] using splitKey_bare h after (hr.stops (by decide))
    | cons i is =>
      refine splitSegment_of_parts (k := some key) ?_ (splitIndices_texts (i :: is) hstop) hend
        hr rfl
      rw [hstart, Step.text, List.append_assoc, List.append_assoc]
      exact splitKey_bare h gap (stops_cons.mpr (by decide))
  | indexed first more =>
    refine splitSegment_of_parts (k := none) ?_ (splitIndices_texts (first :: more) hstop) hend
      hr rfl
    rw [hstart]
    exact splitKey_bracket _

/-- What is taken for a bare key is one of the grammar, if the scan walks over
it. -/
theorem isBareKey_trimEnd {t : List Char} (hne : t ≠ []) (hb : Stops Text.isBlank t)
    (hq : Stops isQuote t) (hends : ∀ c ∈ t, endsBareKey c = false) (hs : start.Passes t) :
    IsBareKey (Text.trimEnd t) := by
  have hends' : ∀ c ∈ Text.trimEnd t, endsBareKey c = false := fun c hc =>
    hends c (Text.mem_of_mem_trimEnd hc)
  have hpoint : '.' ∉ t := fun hc => absurd (hends _ hc) (by decide)
  refine ⟨Text.trimEnd_ne_nil hne hb, Text.isTrimmed_trimEnd hb, Text.stops_trimEnd hq,
    fun hc => absurd (hends' _ hc) (by decide), fun hc => absurd (hends' _ hc) (by decide),
    fun c hc => ?_⟩
  -- the scan is inside the step from the first character on
  obtain ⟨d, t, rfl⟩ := List.exists_cons_of_ne_nil hne
  exact (passes_start_of_ordinary (stops_cons.mp hq) (stops_cons.mp hb) hpoint).mp hs c
    (Text.mem_of_mem_trimEnd hc)

/-- **What is read as a key is a key**: quoted, or bare if the scan walks over it;
if there is none, nothing is read. -/
theorem exists_of_splitKey {t u : List Char} {k : Option (List Char)}
    (h : splitKey t = .ok (k, u)) (hb : Stops Text.isBlank t) (hs : start.Passes t) :
    (∃ q key, isQuote q = true ∧ q ∉ key ∧ k = some key ∧ t = q :: (key ++ q :: u)) ∨
      (∃ key, ∃ gap : Blanks, IsBareKey key ∧ k = some key ∧ t = key ++ (gap.1 ++ u)) ∨
      (k = none ∧ t = u) := by
  cases t with
  | nil =>
    cases h
    exact Or.inr (Or.inr ⟨rfl, rfl⟩)
  | cons c t =>
    rcases hq : isQuote c with _ | _
    · rw [splitKey_of_not_quote hq] at h
      have hsplit := List.takeWhile_append_dropWhile (p := fun d => !endsBareKey d) (l := c :: t)
      obtain ⟨hk, hu⟩ := Prod.mk.inj (Except.ok.inj h)
      rw [hu] at hsplit
      rcases eq_or_ne ((c :: t).takeWhile fun d => !endsBareKey d) [] with hrun | hrun
      · rw [hrun] at hk hsplit
        exact Or.inr (Or.inr ⟨hk.symm, hsplit.symm⟩)
      · -- a run that is not empty begins like the text, with no quotation mark and no blank
        have hends : ∀ d ∈ (c :: t).takeWhile (fun d => !endsBareKey d), endsBareKey d = false :=
          fun d hd => by simpa using List.mem_takeWhile_imp hd
        have hstart : ∀ {p : Char → Bool}, p c = false →
            Stops p ((c :: t).takeWhile fun d => !endsBareKey d) := by
          intro p hp d hd
          have : (c :: t).head? = some d := by rw [← hsplit, List.head?_append, hd]; rfl
          cases this
          exact hp
        generalize (c :: t).takeWhile (fun d => !endsBareKey d) = run at *
        rw [← hsplit, passes_append] at hs
        have hbare := isBareKey_trimEnd hrun (hstart (stops_cons.mp hb)) (hstart hq) hends hs.1
        obtain ⟨w, hw, hwt⟩ := Text.exists_eq_trimEnd run
        refine Or.inr (Or.inl ⟨Text.trimEnd run, ⟨w, hw⟩, hbare, ?_, ?_⟩)
        · rw [← hk, if_neg (by simpa using hbare.ne_nil)]
        · rw [← List.append_assoc, ← hwt, hsplit]
    · rw [splitKey, if_pos hq] at h
      split at h
      · cases h
      · rename_i key rest hcut
        cases h
        obtain ⟨rfl, hmem⟩ := eq_append_of_breakAt? hcut
        exact Or.inl ⟨c, key, hq, hmem, rfl, rfl⟩

/-- **What is read as a step is a step**, if the scan walks over it. -/
theorem exists_of_splitSegment {t r : List Char} {segment : Segment}
    (h : splitSegment t = .ok (segment, r)) (hs : start.Passes t) :
    ∃ s : Spaced, t = s.text ++ r ∧ s.step.segment = segment ∧ EndsStep r := by
  obtain ⟨k, u, ns, v, hk, hi, hv, hr, hseg⟩ := exists_parts_of_splitSegment h
  obtain ⟨is, rfl, rfl, -⟩ := exists_of_splitIndices hi
  obtain ⟨w, hw, ht⟩ := Text.exists_eq_trimStart t
  obtain ⟨w', hw', hv'⟩ := Text.exists_eq_trimStart v
  rw [hv] at hv'
  rw [ht, passes_append, run_start_blanks hw] at hs
  -- it is enough to find the step that stands between the blanks
  have hbuild : ∀ (step : Step) (after : Blanks), Text.trimStart t = step.text ++ (after.1 ++ r) →
      step.segment = segment →
      ∃ s : Spaced, t = s.text ++ r ∧ s.step.segment = segment ∧ EndsStep r := by
    intro step after hstep hsegment
    refine ⟨⟨⟨w, hw⟩, step, after⟩, ?_, hsegment, hr⟩
    rw [Spaced.text, List.append_assoc, List.append_assoc, ← hstep, ← ht]
  rcases exists_of_splitKey hk (stops_dropWhile t) hs.2 with
    ⟨q, key, hq, hmem, rfl, hkey⟩ | ⟨key, gap, hbare, rfl, hkey⟩ | ⟨rfl, hkey⟩
  · refine hbuild (.quoted q key is hq hmem) ⟨w', hw'⟩ ?_ (Except.ok.inj hseg)
    rw [hkey, hv', Step.text, List.cons_append, List.append_assoc, List.cons_append]
  · cases is with
    | nil =>
      -- the blanks after a key without indices are those after the step
      have hafter : ∀ c ∈ gap.1 ++ w', Text.isBlank c = true := fun c hc =>
        (List.mem_append.mp hc).elim (gap.2 c) (hw' c)
      refine hbuild (.bare key noBlanks [] hbare fun _ => rfl) ⟨gap.1 ++ w', hafter⟩ ?_
        (Except.ok.inj hseg)
      rw [hkey, hv', Step.text]
      simp [noBlanks]
    | cons i is =>
      refine hbuild (.bare key gap (i :: is) hbare fun he => absurd he (List.cons_ne_nil i is))
        ⟨w', hw'⟩ ?_ (Except.ok.inj hseg)
      rw [hkey, hv', Step.text, List.append_assoc, List.append_assoc]
  · cases is with
    | nil => cases hseg
    | cons i is =>
      refine hbuild (.indexed i is) ⟨w', hw'⟩ ?_ (Except.ok.inj hseg)
      rw [hkey, hv', Step.text]

/-! ### Paths -/

theorem parseSegments_of_error {t : List Char} {e : ConditionError}
    (h : splitSegment t = .error e) : parseSegments t = .error e := by
  rw [parseSegments]
  split
  · rename_i e' h'
    rw [Except.error.inj (h'.symm.trans h)]
  · simp_all

theorem parseSegments_of_last {t : List Char} {segment : Segment}
    (h : splitSegment t = .ok (segment, [])) : parseSegments t = .ok [segment] := by
  rw [parseSegments]
  split
  · simp_all
  · rename_i s' r' h'
    obtain ⟨rfl, rfl⟩ : segment = s' ∧ [] = r' := by simpa [h] using h'
    rfl

theorem parseSegments_of_point {t next : List Char} {segment : Segment} {c : Char}
    (h : splitSegment t = .ok (segment, c :: next)) :
    parseSegments t = (parseSegments next).map (segment :: ·) := by
  rw [parseSegments]
  split
  · simp_all
  · rename_i s' r' h'
    obtain ⟨rfl, rfl⟩ : segment = s' ∧ c :: next = r' := by simpa [h] using h'
    change (parseSegments next >>= fun segments => pure (segment :: segments)) = _
    cases parseSegments next <;> rfl

/-- **Paths are read back.** -/
theorem parseSegments_text (p : Steps) : parseSegments p.text = .ok p.segments := by
  induction p with
  | last s =>
    have h := splitSegment_text s (r := []) (Or.inl rfl)
    rw [List.append_nil] at h
    exact parseSegments_of_last h
  | cons s rest ih =>
    rw [Steps.text, parseSegments_of_point (splitSegment_text s (Or.inr ⟨_, rfl⟩)), ih]
    rfl

/-- **What is read as a path is a path**, if the scan walks over it. -/
theorem exists_steps_of_parseSegments {t : List Char} {segments : List Segment}
    (h : parseSegments t = .ok segments) (hs : start.Passes t) :
    ∃ p : Steps, p.text = t ∧ p.segments = segments := by
  induction t using parseSegments.induct generalizing segments with
  | case1 t e he =>
    rw [parseSegments_of_error he] at h
    cases h
  | case2 t segment he =>
    rw [parseSegments_of_last he] at h
    cases h
    obtain ⟨s, hst, rfl, -⟩ := exists_of_splitSegment he hs
    exact ⟨.last s, by rw [hst, List.append_nil]; rfl, rfl⟩
  | case3 t segment c next he _ ih =>
    obtain ⟨s, hst, rfl, hend⟩ := exists_of_splitSegment he hs
    -- another step follows a point only
    obtain rfl := hend.eq_point
    rw [hst, passes_append, s.run_text] at hs
    rw [parseSegments_of_point he] at h
    cases hn : parseSegments next with
    | error e => simp [hn, Except.map] at h
    | ok rest =>
      rw [hn] at h
      cases h
      obtain ⟨p, hp, rfl⟩ := ih hn hs.2.2
      exact ⟨.cons s p, by rw [Steps.text, hp, hst], rfl⟩

end Grammar

end JsonSieve
