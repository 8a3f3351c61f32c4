import JsonSieve.Proofs.Condition.Grammar

/-!
# Quoted keys, as the operator scan sees them

The scan for the operator walks over a text with three states and knows nothing of
brackets, indices or keys. This file says what it makes of the texts of the
grammar: on every path it walks through to the end without meeting an operator,
and it ends in a step, outside quotation marks
(`JsonSieve.Grammar.Steps.passes_text`, `JsonSieve.Grammar.Steps.run_text`). So
the scan opens and closes its quotation marks where the quoted keys are, and the
first operator character after a path is where it stops.

The walk is cut in two: `JsonSieve.ScanState.run` is the state that a text leads
to, and `JsonSieve.ScanState.Passes` says that no operator begins on the way. Both
compose over concatenation, and `JsonSieve.breakAtOperator` is determined by them.
-/

namespace JsonSieve

/-! ### Characters that are no operators -/

theorem isOperatorChar_eq_false_of_isBlank {c : Char} (h : Text.isBlank c = true) :
    isOperatorChar c = false := by
  rw [Bool.eq_false_iff]
  intro hop
  simp only [isOperatorChar, Bool.or_eq_true, beq_iff_eq] at hop
  rcases hop with (((rfl | rfl) | rfl) | rfl) | rfl <;> exact absurd h (by decide)

theorem isQuote_eq_false_of_isBlank {c : Char} (h : Text.isBlank c = true) :
    isQuote c = false := by
  rw [Bool.eq_false_iff]
  intro hq
  simp only [isQuote, Bool.or_eq_true, beq_iff_eq] at hq
  rcases hq with rfl | rfl <;> exact absurd h (by decide)

theorem ne_point_of_isBlank {c : Char} (h : Text.isBlank c = true) : c ≠ '.' := by
  rintro rfl
  exact absurd h (by decide)

theorem isOperatorChar_eq_false_of_isDigit {c : Char} (h : c.isDigit = true) :
    isOperatorChar c = false := by
  rw [Bool.eq_false_iff]
  intro hop
  simp only [isOperatorChar, Bool.or_eq_true, beq_iff_eq] at hop
  rcases hop with (((rfl | rfl) | rfl) | rfl) | rfl <;> exact absurd h (by decide)

theorem isOperatorChar_eq_false_of_isQuote {c : Char} (h : isQuote c = true) :
    isOperatorChar c = false := by
  simp only [isQuote, Bool.or_eq_true, beq_iff_eq] at h
  rcases h with rfl | rfl <;> rfl

namespace ScanState

/-! ### Walking over a text -/

/-- The state after a text. -/
def run (state : ScanState) : List Char → ScanState
  | [] => state
  | c :: r => (state.next c).run r

/-- No operator begins in a text. -/
def Passes (state : ScanState) : List Char → Prop
  | [] => True
  | c :: r => state.atOperator c = false ∧ (state.next c).Passes r

variable {state : ScanState}

@[simp] theorem run_nil : state.run [] = state := rfl

@[simp] theorem run_cons (c : Char) (r : List Char) : state.run (c :: r) = (state.next c).run r :=
  rfl

@[simp] theorem run_append (a b : List Char) : state.run (a ++ b) = (state.run a).run b := by
  induction a generalizing state with
  | nil => rfl
  | cons c a ih => simp [ih]

@[simp] theorem passes_nil : state.Passes [] := trivial

@[simp] theorem passes_cons {c : Char} {r : List Char} :
    state.Passes (c :: r) ↔ state.atOperator c = false ∧ (state.next c).Passes r := Iff.rfl

@[simp] theorem passes_append {a b : List Char} :
    state.Passes (a ++ b) ↔ state.Passes a ∧ (state.run a).Passes b := by
  induction a generalizing state with
  | nil => simp
  | cons c a ih => simp [ih, and_assoc]

/-! ### Runs of one kind -/

/-- Before a step, blanks change nothing. -/
theorem run_start_blanks {w : List Char} (hw : ∀ c ∈ w, Text.isBlank c = true) :
    start.run w = start := by
  induction w with
  | nil => rfl
  | cons c w ih =>
    have hc := hw c (List.mem_cons_self ..)
    have hstay : start.next c = start := by
      simp [next, isQuote_eq_false_of_isBlank hc, hc]
    rw [run_cons, hstay]
    exact ih fun d hd => hw d (List.mem_cons_of_mem _ hd)

theorem passes_start_blanks {w : List Char} (hw : ∀ c ∈ w, Text.isBlank c = true) :
    start.Passes w := by
  induction w with
  | nil => trivial
  | cons c w ih =>
    have hc := hw c (List.mem_cons_self ..)
    have hstay : start.next c = start := by
      simp [next, isQuote_eq_false_of_isBlank hc, hc]
    refine ⟨isOperatorChar_eq_false_of_isBlank hc, ?_⟩
    rw [hstay]
    exact ih fun d hd => hw d (List.mem_cons_of_mem _ hd)

/-- **In a step only a point leads out of it**, whatever quotation marks it
holds. -/
theorem run_inside {t : List Char} (ht : '.' ∉ t) : inside.run t = inside := by
  induction t with
  | nil => rfl
  | cons c t ih =>
    rw [List.mem_cons, not_or] at ht
    rw [run_cons, next, if_neg (Ne.symm ht.1)]
    exact ih ht.2

theorem passes_inside {t : List Char} (ht : '.' ∉ t) :
    inside.Passes t ↔ ∀ c ∈ t, isOperatorChar c = false := by
  induction t with
  | nil => simp
  | cons c t ih =>
    rw [List.mem_cons, not_or] at ht
    rw [passes_cons, next, if_neg (Ne.symm ht.1), ih ht.2, List.forall_mem_cons]
    rfl

/-- Between quotation marks nothing but the closing one matters. -/
theorem run_quoted {q : Char} {key : List Char} (hq : q ∉ key) :
    (quoted q).run key = quoted q := by
  induction key with
  | nil => rfl
  | cons c key ih =>
    rw [List.mem_cons, not_or] at hq
    rw [run_cons, next, if_neg (Ne.symm hq.1)]
    exact ih hq.2

theorem passes_quoted {q : Char} {key : List Char} (hq : q ∉ key) : (quoted q).Passes key := by
  induction key with
  | nil => trivial
  | cons c key ih =>
    rw [List.mem_cons, not_or] at hq
    refine ⟨rfl, ?_⟩
    rw [next, if_neg (Ne.symm hq.1)]
    exact ih hq.2

/-! ### The scan is determined by the walk -/

/-- What is before the operator is walked over. -/
theorem passes_breakAtOperator (text : List Char) :
    state.Passes (breakAtOperator state text).1 := by
  fun_induction breakAtOperator state text with
  | case1 => trivial
  | case2 => trivial
  | case3 state c r hop before rest last heq ih =>
    rw [heq] at ih
    exact ⟨by simpa using hop, ih⟩

/-- The state of the scan is that of the walk. -/
theorem breakAtOperator_state (text : List Char) :
    (breakAtOperator state text).2.2 = state.run (breakAtOperator state text).1 := by
  fun_induction breakAtOperator state text with
  | case1 => rfl
  | case2 => rfl
  | case3 state c r hop before rest last heq ih =>
    rw [heq] at ih
    exact ih

/-- After what is before the operator there is the operator, or nothing. -/
theorem atOperator_of_breakAtOperator {text r : List Char} {c : Char}
    (h : (breakAtOperator state text).2.1 = c :: r) :
    (breakAtOperator state text).2.2.atOperator c = true := by
  fun_induction breakAtOperator state text with
  | case1 => cases h
  | case2 state d r hop =>
    cases h
    exact hop
  | case3 state d r hop before rest last heq ih =>
    rw [heq] at ih
    exact ih h

/-- **Where the scan stops**: at the first operator after a text without one. -/
theorem breakAtOperator_of_passes {a : List Char} (ha : state.Passes a) (b : List Char) :
    breakAtOperator state (a ++ b) =
      (a ++ (breakAtOperator (state.run a) b).1, (breakAtOperator (state.run a) b).2) := by
  induction a generalizing state with
  | nil => rfl
  | cons c a ih =>
    obtain ⟨hc, ha⟩ := ha
    rw [List.cons_append, breakAtOperator, if_neg (by simp [hc]), ih ha]
    rfl

theorem breakAtOperator_of_atOperator {c : Char} (h : state.atOperator c = true)
    (r : List Char) : breakAtOperator state (c :: r) = ([], c :: r, state) := by
  rw [breakAtOperator, if_pos h]

end ScanState

namespace Grammar

open ScanState

/-! ### What the grammar's texts hold -/

theorem Index.not_operator_of_mem_text {i : Index} {c : Char} (hc : c ∈ i.text) :
    isOperatorChar c = false := by
  simp only [Index.text, Index.inner, List.mem_cons, List.mem_append, List.not_mem_nil,
    or_false] at hc
  rcases hc with rfl | (h | h | h) | rfl
  · rfl
  · exact isOperatorChar_eq_false_of_isBlank (i.before.2 c h)
  · exact isOperatorChar_eq_false_of_isDigit (i.isDigit c h)
  · exact isOperatorChar_eq_false_of_isBlank (i.after.2 c h)
  · rfl

theorem Index.point_not_mem_text (i : Index) : '.' ∉ i.text := by
  intro hc
  simp only [Index.text, Index.inner, List.mem_cons, List.mem_append, List.not_mem_nil,
    or_false] at hc
  rcases hc with h | (h | h | h) | h
  · exact absurd h (by decide)
  · exact ne_point_of_isBlank (i.before.2 _ h) rfl
  · exact absurd (i.isDigit _ h) (by decide)
  · exact ne_point_of_isBlank (i.after.2 _ h) rfl
  · exact absurd h (by decide)

theorem Index.not_operator_of_mem_texts {is : List Index} {c : Char} (hc : c ∈ Index.texts is) :
    isOperatorChar c = false := by
  induction is with
  | nil => simp at hc
  | cons i is ih =>
    rcases List.mem_append.mp hc with h | h
    · exact i.not_operator_of_mem_text h
    · exact ih h

theorem Index.point_not_mem_texts (is : List Index) : '.' ∉ Index.texts is := by
  induction is with
  | nil => simp
  | cons i is ih =>
    rw [Index.texts_cons, List.mem_append, not_or]
    exact ⟨i.point_not_mem_text, ih⟩

/-- Between two quotation marks the scan is in the key, and after them in the
step. -/
theorem run_start_quoted {q : Char} {key : List Char} (hq : isQuote q = true) (hk : q ∉ key)
    (r : List Char) : start.run (q :: (key ++ q :: r)) = inside.run r := by
  have hopen : start.next q = quoted q := by simp [ScanState.next, hq]
  have hclose : (quoted q).next q = inside := by simp [ScanState.next]
  rw [run_cons, hopen, run_append, run_quoted hk, run_cons, hclose]

theorem passes_start_quoted {q : Char} {key : List Char} (hq : isQuote q = true) (hk : q ∉ key)
    {r : List Char} : start.Passes (q :: (key ++ q :: r)) ↔ inside.Passes r := by
  have hopen : start.next q = quoted q := by simp [ScanState.next, hq]
  have hclose : (quoted q).next q = inside := by simp [ScanState.next]
  rw [passes_cons, hopen, passes_append, run_quoted hk, passes_cons, hclose]
  exact ⟨fun h => h.2.2.2, fun h => ⟨isOperatorChar_eq_false_of_isQuote hq, passes_quoted hk,
    rfl, h⟩⟩

/-! ### Steps and paths -/

/-- A step is not empty, and it begins with no blank. -/
theorem Step.exists_text_eq_cons (s : Step) :
    ∃ c r, s.text = c :: r ∧ Text.isBlank c = false := by
  cases s with
  | quoted q key indices hq hk =>
    refine ⟨q, _, rfl, ?_⟩
    rw [Bool.eq_false_iff]
    intro hb
    exact absurd hq (by simp [isQuote_eq_false_of_isBlank hb])
  | bare key gap indices h hgap =>
    cases key with
    | nil => exact absurd rfl h.ne_nil
    | cons c key => exact ⟨c, _, rfl, stops_cons.mp h.isTrimmed.head⟩
  | indexed first more => exact ⟨'[', _, rfl, by decide⟩

/-- A step that begins with no quotation mark and holds no point is walked over as
a whole, unless an operator begins in it. -/
theorem run_start_of_ordinary {c : Char} {t : List Char} (hq : isQuote c = false)
    (hb : Text.isBlank c = false) (hp : '.' ∉ c :: t) : start.run (c :: t) = inside := by
  rw [List.mem_cons, not_or] at hp
  have hnext : start.next c = inside := by simp [ScanState.next, hq, Ne.symm hp.1, hb]
  rw [run_cons, hnext, run_inside hp.2]

theorem passes_start_of_ordinary {c : Char} {t : List Char} (hq : isQuote c = false)
    (hb : Text.isBlank c = false) (hp : '.' ∉ c :: t) :
    start.Passes (c :: t) ↔ ∀ d ∈ c :: t, isOperatorChar d = false := by
  rw [List.mem_cons, not_or] at hp
  have hnext : start.next c = inside := by simp [ScanState.next, hq, Ne.symm hp.1, hb]
  rw [passes_cons, hnext, passes_inside hp.2, List.forall_mem_cons]
  rfl

theorem Step.point_not_mem_bare {key : List Char} (h : IsBareKey key) (gap : Blanks)
    (indices : List Index) : '.' ∉ key ++ (gap.1 ++ Index.texts indices) := by
  simp only [List.mem_append, not_or]
  exact ⟨h.point_not_mem, fun hc => ne_point_of_isBlank (gap.2 _ hc) rfl,
    Index.point_not_mem_texts indices⟩

theorem Step.not_operator_of_mem_unquoted (s : Step) {c : Char} (hc : c ∈ s.unquoted) :
    isOperatorChar c = false := by
  cases s with
  | quoted q key indices hq hk => exact Index.not_operator_of_mem_texts hc
  | bare key gap indices h hgap =>
    simp only [Step.unquoted, Step.text, List.mem_append] at hc
    rcases hc with hc | hc | hc
    · exact h.not_operator c hc
    · exact isOperatorChar_eq_false_of_isBlank (gap.2 c hc)
    · exact Index.not_operator_of_mem_texts hc
  | indexed first more => exact Index.not_operator_of_mem_texts hc

theorem Step.run_text (s : Step) : start.run s.text = inside := by
  cases s with
  | quoted q key indices hq hk =>
    rw [Step.text, run_start_quoted hq hk, run_inside (Index.point_not_mem_texts indices)]
  | bare key gap indices h hgap =>
    have hp := Step.point_not_mem_bare h gap indices
    cases key with
    | nil => exact absurd rfl h.ne_nil
    | cons c key =>
      exact run_start_of_ordinary (stops_cons.mp h.head_not_quote)
        (stops_cons.mp h.isTrimmed.head) hp
  | indexed first more =>
    exact run_start_of_ordinary (by decide) (by decide) (Index.point_not_mem_texts (first :: more))

theorem Step.passes_text (s : Step) : start.Passes s.text := by
  have hop := fun c => s.not_operator_of_mem_unquoted (c := c)
  cases s with
  | quoted q key indices hq hk =>
    -- what is between the quotation marks is not looked at
    exact (passes_start_quoted hq hk).mpr
      ((passes_inside (Index.point_not_mem_texts indices)).mpr hop)
  | bare key gap indices h hgap =>
    have hp := Step.point_not_mem_bare h gap indices
    cases key with
    | nil => exact absurd rfl h.ne_nil
    | cons c key =>
      exact (passes_start_of_ordinary (stops_cons.mp h.head_not_quote)
        (stops_cons.mp h.isTrimmed.head) hp).mpr hop
  | indexed first more =>
    exact (passes_start_of_ordinary (by decide) (by decide)
      (Index.point_not_mem_texts (first :: more))).mpr hop

/-- After a step blanks change nothing either. -/
theorem run_inside_blanks (w : Blanks) : inside.run w.1 = inside :=
  run_inside fun hc => ne_point_of_isBlank (w.2 _ hc) rfl

theorem passes_inside_blanks (w : Blanks) : inside.Passes w.1 :=
  (passes_inside fun hc => ne_point_of_isBlank (w.2 _ hc) rfl).mpr fun c hc =>
    isOperatorChar_eq_false_of_isBlank (w.2 c hc)

theorem Spaced.run_text (s : Spaced) : start.run s.text = inside := by
  rw [Spaced.text, run_append, run_start_blanks s.before.2, run_append, s.step.run_text,
    run_inside_blanks]

theorem Spaced.passes_text (s : Spaced) : start.Passes s.text := by
  rw [Spaced.text, passes_append, run_start_blanks s.before.2, passes_append, s.step.run_text]
  exact ⟨passes_start_blanks s.before.2, s.step.passes_text, passes_inside_blanks s.after⟩

/-- **The scan leaves a path outside quotation marks.** -/
theorem Steps.run_text (p : Steps) : start.run p.text = inside := by
  induction p with
  | last s => exact s.run_text
  | cons s rest ih => rw [Steps.text, run_append, s.run_text, run_cons]; exact ih

/-- **The scan meets no operator in a path.** -/
theorem Steps.passes_text (p : Steps) : start.Passes p.text := by
  induction p with
  | last s => exact s.passes_text
  | cons s rest ih =>
    rw [Steps.text, passes_append, s.run_text, passes_cons]
    exact ⟨s.passes_text, rfl, ih⟩

/-- What is not in a quoted key holds no operator character. -/
theorem Steps.not_operator_of_mem_unquoted (p : Steps) {c : Char} (hc : c ∈ p.unquoted) :
    isOperatorChar c = false := by
  have hspaced : ∀ s : Spaced, c ∈ s.unquoted → isOperatorChar c = false := by
    intro s hs
    simp only [Spaced.unquoted, List.mem_append] at hs
    rcases hs with hs | hs | hs
    · exact isOperatorChar_eq_false_of_isBlank (s.before.2 c hs)
    · exact s.step.not_operator_of_mem_unquoted hs
    · exact isOperatorChar_eq_false_of_isBlank (s.after.2 c hs)
  induction p with
  | last s => exact hspaced s hc
  | cons s rest ih =>
    simp only [Steps.unquoted, List.mem_append, List.mem_cons] at hc
    rcases hc with hc | rfl | hc
    · exact hspaced s hc
    · rfl
    · exact ih hc

end Grammar

end JsonSieve
