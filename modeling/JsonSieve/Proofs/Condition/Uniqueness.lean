import JsonSieve.Proofs.Condition.PathReading

/-!
# A text has one tree

The grammar of paths is unambiguous: two trees with the same text are the same
tree, blanks included (`JsonSieve.Grammar.Steps.text_injective`). Each part of a
tree is shown to end where the text alone says so – a run of blanks at the first
character that is none, an index at its closing bracket, a quoted key at its
quotation mark, a step before a point or at the end – so two trees are compared
part by part, each with some text after it.

Only a bare key needs more: it may be followed by blanks, and those belong to it
when indices follow and to the step when none do. The character after the run
decides which.
-/

namespace JsonSieve

namespace Grammar

/-! ### Blanks and indices -/

theorem Blanks.append_inj {w w' : Blanks} {r r' : List Char} (hr : Stops Text.isBlank r)
    (hr' : Stops Text.isBlank r') (h : w.1 ++ r = w'.1 ++ r') : w = w' ∧ r = r' := by
  obtain ⟨hw, hrr⟩ := append_inj_of_stops w.2 w'.2 hr hr' h
  exact ⟨Subtype.ext hw, hrr⟩

/-- Blanks after digits are no digits. -/
theorem Blanks.stops_isDigit (w : Blanks) : Stops Char.isDigit w.1 := by
  intro c hc
  rw [Bool.eq_false_iff]
  intro hd
  exact absurd (w.2 c (List.mem_of_mem_head? hc)) (by simp [Text.isBlank_eq_false_of_isDigit hd])

theorem Index.inner_injective {i i' : Index} (h : i.inner = i'.inner) : i = i' := by
  have hstop : ∀ j : Index, Stops Text.isBlank (j.digits ++ j.after.1) := fun j =>
    j.isTrimmed_digits.head.append j.digits_ne_nil _
  obtain ⟨hbefore, hrest⟩ := Blanks.append_inj (hstop i) (hstop i') h
  obtain ⟨hdigits, hafter⟩ :=
    append_inj_of_stops i.isDigit i'.isDigit i.after.stops_isDigit i'.after.stops_isDigit hrest
  cases i
  cases i'
  obtain rfl := hbefore
  obtain rfl := hdigits
  obtain rfl := Subtype.ext hafter
  rfl

theorem Index.text_append_inj {i i' : Index} {r r' : List Char}
    (h : i.text ++ r = i'.text ++ r') : i = i' ∧ r = r' := by
  have hcut : ∀ (j : Index) (x : List Char),
      breakAt? ']' (j.inner ++ ']' :: x) = some (j.inner, x) :=
    fun j x => breakAt?_append j.bracket_not_mem_inner x
  have hinner : i.inner ++ ']' :: r = i'.inner ++ ']' :: r' := by simpa [Index.text] using h
  have heq := (hcut i r).symm.trans ((congrArg _ hinner).trans (hcut i' r'))
  obtain ⟨hi, hr⟩ := Prod.mk.inj (Option.some.inj heq)
  exact ⟨Index.inner_injective hi, hr⟩

theorem Index.texts_append_inj {is is' : List Index} {r r' : List Char} (hr : Stops opensIndex r)
    (hr' : Stops opensIndex r') (h : Index.texts is ++ r = Index.texts is' ++ r') :
    is = is' ∧ r = r' := by
  induction is generalizing is' with
  | nil =>
    cases is' with
    | nil => exact ⟨rfl, h⟩
    | cons i' is' =>
      -- a bracket would open where no index begins
      rw [Index.texts_nil, List.nil_append] at h
      rw [h] at hr
      exact absurd (stops_cons.mp hr) (by decide)
  | cons i is ih =>
    cases is' with
    | nil =>
      rw [Index.texts_nil, List.nil_append] at h
      rw [← h] at hr'
      exact absurd (stops_cons.mp hr') (by decide)
    | cons i' is' =>
      rw [Index.texts_cons, Index.texts_cons, List.append_assoc, List.append_assoc] at h
      obtain ⟨rfl, hrest⟩ := Index.text_append_inj h
      obtain ⟨rfl, hrr⟩ := ih hrest
      exact ⟨rfl, hrr⟩

/-- Indices, and the blanks after a step, end where the step ends. -/
theorem Index.texts_blanks_inj {is is' : List Index} {w w' : Blanks} {r r' : List Char}
    (hr : EndsStep r) (hr' : EndsStep r')
    (h : Index.texts is ++ (w.1 ++ r) = Index.texts is' ++ (w'.1 ++ r')) :
    is = is' ∧ w = w' ∧ r = r' := by
  obtain ⟨his, hw⟩ :=
    Index.texts_append_inj (stops_opensIndex_blanks w hr) (stops_opensIndex_blanks w' hr') h
  exact ⟨his, Blanks.append_inj (hr.stops (by decide)) (hr'.stops (by decide)) hw⟩

/-! ### Steps -/

section Steps

variable {r r' : List Char} {w w' : Blanks}

/-- The three kinds of steps. -/
inductive StepKind where
  /-- A quoted key, with or without indices. -/
  | quoted
  /-- A bare key, with or without indices. -/
  | bare
  /-- Indices only. -/
  | indexed

/-- The kind of a step. -/
def Step.kind : Step → StepKind
  | quoted .. => .quoted
  | bare .. => .bare
  | indexed .. => .indexed

/-- The kind of the steps that begin with a character. -/
def kindOf (c : Char) : StepKind :=
  if isQuote c then .quoted else if c = '[' then .indexed else .bare

/-- **The first character of a step tells its kind.** -/
theorem Step.exists_kindOf (s : Step) : ∃ c t, s.text = c :: t ∧ kindOf c = s.kind := by
  cases s with
  | quoted q key indices hq hk => exact ⟨q, _, rfl, if_pos hq⟩
  | bare key gap indices h hgap =>
    obtain ⟨c, k, rfl⟩ := List.exists_cons_of_ne_nil h.ne_nil
    refine ⟨c, _, rfl, ?_⟩
    have hq : isQuote c = false := stops_cons.mp h.head_not_quote
    have hb : c ≠ '[' := fun hc => h.bracket_not_mem (hc ▸ List.mem_cons_self ..)
    rw [kindOf, hq, if_neg Bool.false_ne_true, if_neg hb]
    rfl
  | indexed first more => exact ⟨'[', _, rfl, rfl⟩

theorem Step.kind_eq {s s' : Step} {x x' : List Char} (h : s.text ++ x = s'.text ++ x') :
    s.kind = s'.kind := by
  obtain ⟨c, t, ht, hc⟩ := s.exists_kindOf
  obtain ⟨c', t', ht', hc'⟩ := s'.exists_kindOf
  rw [ht, ht', List.cons_append, List.cons_append] at h
  rw [← hc, ← hc', (List.cons.inj h).1]

/-- What is left of a bare step when its key and the blanks after that are taken
away. -/
def bareRest (indices : List Index) (w : Blanks) (r : List Char) : List Char :=
  if indices = [] then r else Index.texts indices ++ (w.1 ++ r)

theorem splitKey_bareStep {key : List Char} {gap : Blanks} {indices : List Index}
    (h : IsBareKey key) (hgap : indices = [] → gap = noBlanks) (hr : EndsStep r) :
    splitKey ((Step.bare key gap indices h hgap).text ++ (w.1 ++ r)) =
      .ok (some key, bareRest indices w r) := by
  cases indices with
  | nil =>
    rw [Step.text, hgap rfl]
    simpa [noBlanks, bareRest] using splitKey_bare h w (hr.stops (by decide))
  | cons i is =>
    rw [Step.text, List.append_assoc, List.append_assoc, bareRest, if_neg (List.cons_ne_nil _ _)]
    exact splitKey_bare h gap (stops_cons.mpr (by decide))

/-- Whether a bare step has indices shows after its key. -/
theorem bareRest_inj {is is' : List Index} (hr : EndsStep r) (hr' : EndsStep r')
    (h : bareRest is w r = bareRest is' w' r') : is = is' ∧ (is ≠ [] → w = w') ∧ r = r' := by
  have hopen : ∀ (i : Index) (is : List Index) (w : Blanks) (x : List Char) {y : List Char},
      EndsStep y → y ≠ bareRest (i :: is) w x := by
    intro i is w x y hy heq
    have hstop : Stops opensIndex y := hy.stops rfl
    rw [heq, bareRest, if_neg (List.cons_ne_nil _ _)] at hstop
    exact absurd (stops_cons.mp hstop) (by decide)
  rcases is with _ | ⟨i, is⟩
  · rcases is' with _ | ⟨i', is'⟩
    · exact ⟨rfl, fun hne => absurd rfl hne, h⟩
    · exact absurd h (hopen i' is' w' r' hr)
  · rcases is' with _ | ⟨i', is'⟩
    · exact absurd h.symm (hopen i is w r hr')
    · rw [bareRest, if_neg (List.cons_ne_nil _ _), bareRest, if_neg (List.cons_ne_nil _ _)] at h
      obtain ⟨his, hw, hrr⟩ := Index.texts_blanks_inj hr hr' h
      exact ⟨his, fun _ => hw, hrr⟩

/-- Two quoted keys with the same text are the same key. -/
theorem quoted_append_inj {q q' : Char} {key key' x x' : List Char} (hk : q ∉ key)
    (hk' : q' ∉ key') (h : q :: (key ++ q :: x) = q' :: (key' ++ q' :: x')) :
    q = q' ∧ key = key' ∧ x = x' := by
  obtain ⟨rfl, h⟩ := List.cons.inj h
  have heq := (breakAt?_append hk x).symm.trans
    ((congrArg _ h).trans (breakAt?_append hk' x'))
  exact ⟨rfl, Prod.mk.inj (Option.some.inj heq)⟩

/-- Two bare steps with the same text are the same step, and so are the blanks after
them. -/
theorem bare_append_inj {key key' : List Char} {gap gap' : Blanks} {is is' : List Index}
    {hb : IsBareKey key} {hb' : IsBareKey key'} {hgap : is = [] → gap = noBlanks}
    {hgap' : is' = [] → gap' = noBlanks} (hr : EndsStep r) (hr' : EndsStep r')
    (h : (Step.bare key gap is hb hgap).text ++ (w.1 ++ r) =
      (Step.bare key' gap' is' hb' hgap').text ++ (w'.1 ++ r')) :
    Step.bare key gap is hb hgap = Step.bare key' gap' is' hb' hgap' ∧ w = w' ∧ r = r' := by
  -- the reader of keys is a function, so that the keys and what is left of them are equal
  have hsplit := (splitKey_bareStep (w := w) hb hgap hr).symm.trans
    ((congrArg _ h).trans (splitKey_bareStep hb' hgap' hr'))
  obtain ⟨hkey, hrest⟩ := Prod.mk.inj (Except.ok.inj hsplit)
  obtain rfl := Option.some.inj hkey
  obtain ⟨rfl, hw, rfl⟩ := bareRest_inj hr hr' hrest
  rcases eq_or_ne is [] with rfl | hne
  · -- no indices: the blanks are all after the step
    obtain rfl := hgap rfl
    obtain rfl := hgap' rfl
    have hw : w.1 ++ r = w'.1 ++ r := List.append_cancel_left h
    exact ⟨rfl, Subtype.ext (List.append_cancel_right hw), rfl⟩
  · obtain rfl := hw hne
    have htext : key ++ (gap.1 ++ Index.texts is) = key ++ (gap'.1 ++ Index.texts is) :=
      List.append_cancel_right h
    obtain rfl : gap = gap' :=
      Subtype.ext (List.append_cancel_right (List.append_cancel_left htext))
    exact ⟨rfl, rfl, rfl⟩

/-- **A step ends where its text says so.** -/
theorem Step.text_append_inj {s s' : Step} (hr : EndsStep r) (hr' : EndsStep r')
    (h : s.text ++ (w.1 ++ r) = s'.text ++ (w'.1 ++ r')) : s = s' ∧ w = w' ∧ r = r' := by
  have hkind := Step.kind_eq h
  cases s with
  | quoted q key is hq hk =>
    cases s' with
    | quoted q' key' is' hq' hk' =>
      simp only [Step.text, List.cons_append, List.append_assoc] at h
      obtain ⟨rfl, rfl, hrest⟩ := quoted_append_inj hk hk' h
      obtain ⟨rfl, hw, hrr⟩ := Index.texts_blanks_inj hr hr' hrest
      exact ⟨rfl, hw, hrr⟩
    | bare => cases hkind
    | indexed => cases hkind
  | bare key gap is hb hgap =>
    cases s' with
    | quoted => cases hkind
    | bare key' gap' is' hb' hgap' => exact bare_append_inj hr hr' h
    | indexed => cases hkind
  | indexed i is =>
    cases s' with
    | quoted => cases hkind
    | bare => cases hkind
    | indexed i' is' =>
      obtain ⟨his, hw, hrr⟩ := Index.texts_blanks_inj hr hr' h
      cases his
      exact ⟨rfl, hw, hrr⟩

theorem Spaced.text_append_inj {s s' : Spaced} (hr : EndsStep r) (hr' : EndsStep r')
    (h : s.text ++ r = s'.text ++ r') : s = s' ∧ r = r' := by
  obtain ⟨before, step, after⟩ := s
  obtain ⟨before', step', after'⟩ := s'
  simp only [Spaced.text, List.append_assoc] at h
  obtain ⟨rfl, hstep⟩ :=
    Blanks.append_inj (step.stops_isBlank_text _) (step'.stops_isBlank_text _) h
  obtain ⟨rfl, rfl, hrr⟩ := Step.text_append_inj hr hr' hstep
  exact ⟨rfl, hrr⟩

end Steps

/-! ### Paths -/

/-- **The grammar of paths is unambiguous.** -/
theorem Steps.text_injective : Function.Injective Steps.text := by
  intro p
  induction p with
  | last s =>
    intro p' h
    cases p' with
    | last s' =>
      have hend : s.text ++ [] = s'.text ++ [] := congrArg (· ++ []) h
      rw [(Spaced.text_append_inj (Or.inl rfl) (Or.inl rfl) hend).1]
    | cons s' rest' =>
      have hend : s.text ++ [] = s'.text ++ '.' :: rest'.text := by rw [List.append_nil]; exact h
      cases (Spaced.text_append_inj (Or.inl rfl) (Or.inr ⟨_, rfl⟩) hend).2
  | cons s rest ih =>
    intro p' h
    cases p' with
    | last s' =>
      have hend : s.text ++ '.' :: rest.text = s'.text ++ [] := by rw [List.append_nil]; exact h
      cases (Spaced.text_append_inj (Or.inr ⟨_, rfl⟩) (Or.inl rfl) hend).2
    | cons s' rest' =>
      obtain ⟨rfl, hrest⟩ := Spaced.text_append_inj (Or.inr ⟨_, rfl⟩) (Or.inr ⟨_, rfl⟩) h
      rw [ih (List.cons.inj hrest).2]

end Grammar

end JsonSieve
