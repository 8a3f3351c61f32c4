import Mathlib.Data.List.TakeWhile
import JsonSieve.Text.Blank

/-!
# Where a run of characters ends

Every scanner of the library takes a run of characters of one class – blanks,
digits, the inside of a quoted key – and stops at the first character outside
it. So a text that is a run followed by something that does not go on with it
(`JsonSieve.Stops`) can be cut in one place only, and the scanner cuts it there:
`JsonSieve.takeWhile_append_of_stops`, `JsonSieve.dropWhile_append_of_stops` and,
for two ways to cut one text, `JsonSieve.append_inj_of_stops`.

Trimming is the same at both ends. `JsonSieve.Text.exists_eq_trim` says what
trimming takes away, `JsonSieve.Text.trim_append` that nothing else is taken
away, and a trimmed text is one that trimming leaves alone
(`JsonSieve.Text.IsTrimmed`), as are digits.
-/

namespace JsonSieve

/-! ### Runs -/

section Runs

variable {α : Type} {p : α → Bool}

/-- A list that does not begin with an element of the class `p`. -/
def Stops (p : α → Bool) (l : List α) : Prop := ∀ x, l.head? = some x → p x = false

@[simp] theorem stops_nil : Stops p ([] : List α) := by
  intro x hx
  simp at hx

@[simp] theorem stops_cons {x : α} {l : List α} : Stops p (x :: l) ↔ p x = false := by
  simp [Stops]

theorem stops_dropWhile (l : List α) : Stops p (l.dropWhile p) := by
  intro x hx
  have h := List.head?_dropWhile_not p l
  rw [hx] at h
  simpa using h

theorem Stops.append {a : List α} (ha : Stops p a) (hne : a ≠ []) (b : List α) :
    Stops p (a ++ b) := by
  cases a with
  | nil => exact absurd rfl hne
  | cons x a => exact stops_cons.mpr (stops_cons.mp ha)

theorem Stops.of_append {a b : List α} (h : Stops p (a ++ b)) : Stops p a := by
  cases a with
  | nil => exact stops_nil
  | cons x a => exact stops_cons.mpr (stops_cons.mp h)

theorem takeWhile_append_of_stops {a b : List α} (ha : ∀ x ∈ a, p x = true) (hb : Stops p b) :
    (a ++ b).takeWhile p = a := by
  rw [List.takeWhile_append_of_pos ha]
  cases b with
  | nil => simp
  | cons x b => simp [stops_cons.mp hb]

theorem dropWhile_append_of_stops {a b : List α} (ha : ∀ x ∈ a, p x = true) (hb : Stops p b) :
    (a ++ b).dropWhile p = b := by
  rw [List.dropWhile_append_of_pos ha]
  cases b with
  | nil => rfl
  | cons x b => simp [stops_cons.mp hb]

/-- **A run ends in one place only.** -/
theorem append_inj_of_stops {a a' b b' : List α} (ha : ∀ x ∈ a, p x = true)
    (ha' : ∀ x ∈ a', p x = true) (hb : Stops p b) (hb' : Stops p b') (h : a ++ b = a' ++ b') :
    a = a' ∧ b = b' := by
  refine ⟨?_, ?_⟩
  · rw [← takeWhile_append_of_stops ha hb, h, takeWhile_append_of_stops ha' hb']
  · rw [← dropWhile_append_of_stops ha hb, h, dropWhile_append_of_stops ha' hb']

end Runs

namespace Text

/-! ### Trimmed texts -/

/-- A text with blanks at neither end. -/
structure IsTrimmed (text : List Char) : Prop where
  /-- It does not begin with a blank. -/
  head : Stops isBlank text
  /-- It does not end with a blank. -/
  last : Stops isBlank text.reverse

theorem trimStart_append {w t : List Char} (hw : ∀ c ∈ w, isBlank c = true)
    (ht : Stops isBlank t) : trimStart (w ++ t) = t :=
  dropWhile_append_of_stops hw ht

theorem trimStart_eq_self {t : List Char} (ht : Stops isBlank t) : trimStart t = t :=
  trimStart_append (w := []) (by simp) ht

theorem trimEnd_append {w t : List Char} (hw : ∀ c ∈ w, isBlank c = true)
    (ht : Stops isBlank t.reverse) : trimEnd (t ++ w) = t := by
  rw [trimEnd, List.reverse_append,
    dropWhile_append_of_stops (fun c hc => hw c (List.mem_reverse.mp hc)) ht, List.reverse_reverse]

/-- Trimming at the end goes no further than to a character that is not blank. -/
theorem trimEnd_append_of_stops {a : List Char} (ha : Stops isBlank a.reverse) (b : List Char) :
    trimEnd (a ++ b) = a ++ trimEnd b := by
  rw [trimEnd, List.reverse_append, List.dropWhile_append]
  split
  · -- all of the rest is blank
    rename_i h
    have hb : trimEnd b = [] := by rw [trimEnd, List.isEmpty_iff.mp h, List.reverse_nil]
    have ha' : trimEnd (a ++ []) = a := trimEnd_append (by simp) ha
    rw [hb, List.append_nil]
    rwa [List.append_nil] at ha'
  · rw [List.reverse_append, List.reverse_reverse, trimEnd]

/-- What trimming at the start takes away. -/
theorem exists_eq_trimStart (t : List Char) :
    ∃ w, (∀ c ∈ w, isBlank c = true) ∧ t = w ++ trimStart t :=
  ⟨t.takeWhile isBlank, fun _ hc => List.mem_takeWhile_imp hc,
    List.takeWhile_append_dropWhile.symm⟩

/-- What trimming at the end takes away. -/
theorem exists_eq_trimEnd (t : List Char) :
    ∃ w, (∀ c ∈ w, isBlank c = true) ∧ t = trimEnd t ++ w := by
  refine ⟨(t.reverse.takeWhile isBlank).reverse,
    fun c hc => List.mem_takeWhile_imp (List.mem_reverse.mp hc), ?_⟩
  rw [trimEnd, ← List.reverse_append, List.takeWhile_append_dropWhile, List.reverse_reverse]

theorem stops_reverse_trimEnd (t : List Char) : Stops isBlank (trimEnd t).reverse := by
  rw [trimEnd, List.reverse_reverse]
  exact stops_dropWhile _

theorem mem_of_mem_trimEnd {t : List Char} {c : Char} (hc : c ∈ trimEnd t) : c ∈ t := by
  obtain ⟨w, -, hw⟩ := exists_eq_trimEnd t
  rw [hw]
  exact List.mem_append_left _ hc

/-- Trimming at the end leaves the start alone. -/
theorem stops_trimEnd {p : Char → Bool} {t : List Char} (ht : Stops p t) :
    Stops p (trimEnd t) := by
  obtain ⟨w, -, hw⟩ := exists_eq_trimEnd t
  intro c hc
  refine ht c ?_
  rw [hw, List.head?_append, hc]
  rfl

/-- Something is left of a text that does not begin with a blank. -/
theorem trimEnd_ne_nil {t : List Char} (hne : t ≠ []) (ht : Stops isBlank t) :
    trimEnd t ≠ [] := by
  intro he
  obtain ⟨w, hw, hwt⟩ := exists_eq_trimEnd t
  rw [he, List.nil_append] at hwt
  subst hwt
  obtain ⟨c, w, rfl⟩ := List.exists_cons_of_ne_nil hne
  simp [hw c (List.mem_cons_self ..)] at ht

theorem isTrimmed_trimEnd {t : List Char} (ht : Stops isBlank t) : IsTrimmed (trimEnd t) :=
  ⟨stops_trimEnd ht, stops_reverse_trimEnd t⟩

theorem isTrimmed_trim (t : List Char) : IsTrimmed (trim t) :=
  isTrimmed_trimEnd (stops_dropWhile t)

/-- **What trimming takes away**: blanks at either end. -/
theorem exists_eq_trim (t : List Char) :
    ∃ w w', (∀ c ∈ w, isBlank c = true) ∧ (∀ c ∈ w', isBlank c = true) ∧
      t = w ++ (trim t ++ w') := by
  obtain ⟨w, hw, h⟩ := exists_eq_trimStart t
  obtain ⟨w', hw', h'⟩ := exists_eq_trimEnd (trimStart t)
  refine ⟨w, w', hw, hw', ?_⟩
  rw [trim, ← h', ← h]

/-- **Trimming takes away nothing else**: a trimmed text comes out of the blanks
around it. -/
theorem trim_append {w t w' : List Char} (hw : ∀ c ∈ w, isBlank c = true)
    (hw' : ∀ c ∈ w', isBlank c = true) (ht : IsTrimmed t) : trim (w ++ (t ++ w')) = t := by
  rcases eq_or_ne t [] with rfl | hne
  · -- only blanks: the first pass takes them all
    have hall : trimStart (w ++ ([] ++ w')) = [] :=
      List.dropWhile_eq_nil_iff.mpr fun c hc =>
        (List.mem_append.mp hc).elim (hw c) fun h => hw' c (by simpa using h)
    rw [trim, hall, trimEnd_nil]
  · rw [trim, trimStart_append hw (ht.head.append hne w'), trimEnd_append hw' ht.last]

/-- What trimming at the end takes away, trimming at both ends takes away too. -/
theorem trim_trimEnd (t : List Char) : trim (trimEnd t) = trim t := by
  obtain ⟨u, hu, ht⟩ := exists_eq_trimEnd t
  obtain ⟨w, w', hw, hw', ht'⟩ := exists_eq_trim (trimEnd t)
  have hblank : ∀ c ∈ w' ++ u, isBlank c = true := fun c hc =>
    (List.mem_append.mp hc).elim (hw' c) (hu c)
  have h := trim_append hw hblank (isTrimmed_trim (trimEnd t))
  rw [← List.append_assoc (trim (trimEnd t)), ← List.append_assoc w, ← ht', ← ht] at h
  exact h.symm

theorem trim_sublist (t : List Char) : (trim t).Sublist t := by
  rw [trim, trimEnd]
  have h := (List.dropWhile_sublist isBlank (l := (trimStart t).reverse)).reverse
  rw [List.reverse_reverse] at h
  exact h.trans (List.dropWhile_sublist _)

theorem trim_cons_of_isBlank {c : Char} (hc : isBlank c = true) (t : List Char) :
    trim (c :: t) = trim t := by
  rw [trim, trim, trimStart, List.dropWhile_cons, if_pos hc, trimStart]

theorem IsTrimmed.trim_eq {t : List Char} (ht : IsTrimmed t) : trim t = t := by
  simpa using @trim_append [] t [] (by simp) (by simp) ht

/-- A text without blanks has none at its ends. -/
theorem isTrimmed_of_not_blank {t : List Char} (h : ∀ c ∈ t, isBlank c = false) : IsTrimmed t :=
  ⟨fun c hc => h c (List.mem_of_mem_head? hc),
    fun c hc => h c (List.mem_reverse.mp (List.mem_of_mem_head? hc))⟩

/-! ### Digits -/

/-- Where the digits are. -/
theorem toNat_of_isDigit {c : Char} (h : c.isDigit = true) : 48 ≤ c.toNat ∧ c.toNat ≤ 57 := by
  simpa [Char.isDigit, UInt32.le_iff_toNat_le] using h

theorem isBlank_eq_false_of_isDigit {c : Char} (h : c.isDigit = true) : isBlank c = false := by
  have hrange := toNat_of_isDigit h
  rw [Bool.eq_false_iff]
  intro hb
  simp only [isBlank, blankRanges, List.any_cons, List.any_nil, Bool.or_false, Bool.or_eq_true,
    Bool.and_eq_true, decide_eq_true_eq] at hb
  omega

end Text

end JsonSieve
