import JsonSieve.Proofs.Condition.Uniqueness

/-!
# Conditions are read by their grammar

A text is read as a condition exactly if, blanks at its ends apart, it has a
derivation, and then as the condition that the derivation writes
(`JsonSieve.Grammar.parse_eq_ok_iff_derivation`). There is at most one derivation,
so the reader never chooses.

The two scanners meet here. A derivation forces the operator scan
(`JsonSieve.Grammar.Derivation.breakAtOperator_eq`), because the scan walks over
every path; and a text that the scan has walked over is a path of the grammar if
it is read as one.
-/

namespace JsonSieve

/-! ### The longest operator -/

namespace Operator

theorem chars_injective : Function.Injective chars := by
  intro a b h
  cases a <;> cases b <;> first | rfl | cases h

/-- An operator begins with a character of an operator. -/
theorem exists_chars_eq_cons (op : Operator) :
    ∃ c r, op.chars = c :: r ∧ isOperatorChar c = true := by
  cases op <;> exact ⟨_, _, rfl, rfl⟩

/-- No operator comes before a longer one. -/
theorem pairwise_length_all : all.Pairwise fun a b => b.chars.length ≤ a.chars.length := by
  decide

/-- **The longest operator is found**: of the operators that a text begins with no
other one is as long. -/
theorem longest?_eq_some_iff {t : List Char} {op : Operator} :
    longest? t = some op ↔
      op.chars <+: t ∧ ∀ other : Operator, other.chars <+: t →
        other.chars.length ≤ op.chars.length := by
  have hfound : ∀ {o : Operator}, longest? t = some o → o.chars <+: t ∧
      ∀ other : Operator, other.chars <+: t → other.chars.length ≤ o.chars.length := by
    intro o h
    obtain ⟨hpre, as, bs, hall, hbefore⟩ := List.find?_eq_some_iff_append.mp h
    refine ⟨List.isPrefixOf_iff_prefix.mp hpre, fun other hother => ?_⟩
    have hpair := pairwise_length_all
    have hmem := mem_all other
    rw [hall] at hpair hmem
    rcases List.mem_append.mp hmem with hlt | hge
    · exact absurd (List.isPrefixOf_iff_prefix.mpr hother)
        (Bool.eq_false_iff.mp (by simpa using hbefore other hlt))
    · rcases List.mem_cons.mp hge with rfl | hgt
      · exact Nat.le_refl _
      · exact (List.pairwise_cons.mp (List.pairwise_append.mp hpair).2.1).1 other hgt
  refine ⟨hfound, fun ⟨hpre, hmax⟩ => ?_⟩
  cases hl : longest? t with
  | none =>
    exact absurd (List.isPrefixOf_iff_prefix.mpr hpre) (List.find?_eq_none.mp hl op (mem_all op))
  | some o =>
    -- two operators of the same length at the same place are the same operator
    obtain ⟨hpre', hmax'⟩ := hfound hl
    have hlen := Nat.le_antisymm (hmax o hpre') (hmax' op hpre)
    exact congrArg some (chars_injective
      ((List.prefix_of_prefix_length_le hpre' hpre (Nat.le_of_eq hlen)).eq_of_length hlen))

end Operator

/-! ### Literals -/

namespace Grammar

/-- **Quotation marks are taken off as the grammar says.** -/
theorem literal_iff {t value : List Char} : Literal t value ↔ unquote t = value := by
  constructor
  · rintro (⟨value, hq⟩ | hbare)
    · rw [unquote, if_pos ⟨hq, List.getLast?_concat⟩, List.dropLast_concat]
    · cases t with
      | nil => rfl
      | cons q r =>
        refine if_neg ?_
        rintro ⟨hq, hlast⟩
        obtain ⟨r, rfl⟩ := List.getLast?_eq_some_iff.mp hlast
        exact hbare q r hq rfl
  · rintro rfl
    cases t with
    | nil => exact .bare fun _ _ _ => (List.cons_ne_nil _ _).symm
    | cons q r =>
      rw [unquote]
      split
      · rename_i h
        obtain ⟨r, rfl⟩ := List.getLast?_eq_some_iff.mp h.2
        rw [List.dropLast_concat]
        exact .quoted r h.1
      · rename_i h
        refine .bare fun quote value hq heq => h ?_
        obtain ⟨rfl, rfl⟩ := List.cons.inj heq
        exact ⟨hq, List.getLast?_concat⟩

open ScanState

/-! ### What a derivation forces -/

section Forced

variable {text : List Char} (d : Derivation text)

theorem Steps.text_ne_nil (p : Steps) : p.text ≠ [] := by
  have hspaced : ∀ s : Spaced, s.text ≠ [] := by
    intro s
    obtain ⟨c, r, hc, -⟩ := s.step.exists_text_eq_cons
    simp [Spaced.text, hc]
  cases p with
  | last s => exact hspaced s
  | cons s rest => simp [Steps.text]

theorem Derivation.run_before : start.run d.before = inside := by
  obtain ⟨w, w', hw, hw', he⟩ := Text.exists_eq_trim d.before
  rw [he, run_append, run_start_blanks hw, run_append, d.trim_before, d.steps.run_text]
  exact run_inside_blanks ⟨w', hw'⟩

theorem Derivation.passes_before : start.Passes d.before := by
  obtain ⟨w, w', hw, hw', he⟩ := Text.exists_eq_trim d.before
  rw [he, passes_append, run_start_blanks hw, passes_append, d.trim_before, d.steps.run_text]
  exact ⟨passes_start_blanks hw, d.steps.passes_text, passes_inside_blanks ⟨w', hw'⟩⟩

/-- **A derivation forces the operator scan**: it stops at the operator, in the
last step of the path. -/
theorem Derivation.breakAtOperator_eq :
    breakAtOperator start text = (d.before, d.operator.chars ++ d.after, inside) := by
  obtain ⟨c, r, hc, hop⟩ := d.operator.exists_chars_eq_cons
  have hstop : inside.atOperator c = true := hop
  refine (congrArg (breakAtOperator start) d.text_eq).trans ?_
  rw [breakAtOperator_of_passes d.passes_before, d.run_before, hc, List.cons_append,
    breakAtOperator_of_atOperator hstop, List.append_nil]

theorem Derivation.longest?_eq :
    Operator.longest? (d.operator.chars ++ d.after) = some d.operator :=
  Operator.longest?_eq_some_iff.mpr ⟨List.prefix_append _ _, d.longest⟩

/-- **There is at most one derivation.** -/
theorem Derivation.eq (d' : Derivation text) : d = d' := by
  have hscan := d.breakAtOperator_eq.symm.trans d'.breakAtOperator_eq
  obtain ⟨hbefore, hrest⟩ := Prod.mk.inj hscan
  have hrest := (Prod.mk.inj hrest).1
  have hop := d.longest?_eq.symm.trans ((congrArg _ hrest).trans d'.longest?_eq)
  have hoperator : d.operator = d'.operator := Option.some.inj hop
  rw [hoperator] at hrest
  have hafter : d.after = d'.after := List.append_cancel_left hrest
  have hsteps := d.trim_before.symm.trans ((congrArg _ hbefore).trans d'.trim_before)
  have hvalue : d.value = d'.value := by
    rw [← literal_iff.mp d.literal, hafter]
    exact literal_iff.mp d'.literal
  exact Derivation.ext hbefore hoperator hafter (Steps.text_injective hsteps) hvalue

end Forced

/-! ### Reading a condition -/

/-- What is read at an operator, in terms of its parts. -/
theorem ofParts_of_parts {before rest : List Char} {op : Operator} {segments : List Segment}
    (hop : Operator.longest? rest = some op) (hne : Text.trim before ≠ [])
    (hpath : parseSegments (Text.trim before) = .ok segments) :
    Condition.ofParts before rest = .ok ⟨⟨String.ofList (Text.trim before), segments⟩, op,
      String.ofList (unquote (Text.trim (rest.drop op.chars.length)))⟩ := by
  have hempty : (Text.trim before).isEmpty = false := by simpa using hne
  simp only [Condition.ofParts, hop, hempty, hpath]
  rfl

/-- The parts of a condition that is read at an operator. -/
theorem exists_parts_of_ofParts {before rest : List Char} {c : Condition}
    (h : Condition.ofParts before rest = .ok c) :
    ∃ op segments, Operator.longest? rest = some op ∧
      parseSegments (Text.trim before) = .ok segments ∧
      c = ⟨⟨String.ofList (Text.trim before), segments⟩, op,
        String.ofList (unquote (Text.trim (rest.drop op.chars.length)))⟩ := by
  unfold Condition.ofParts at h
  cases hop : Operator.longest? rest with
  | none => simp [hop] at h
  | some op =>
    simp only [hop] at h
    split at h
    · cases h
    · cases hpath : parseSegments (Text.trim before) with
      | error e => simp [hpath, bind, Except.bind] at h
      | ok segments =>
        rw [hpath] at h
        cases h
        exact ⟨op, segments, rfl, rfl, rfl⟩

/-- A text is read where the scan has found an operator, -/
theorem ofChars_of_operator {t before rest : List Char} {x : Char} {state : ScanState}
    (h : breakAtOperator start (Text.trim t) = (before, x :: rest, state)) :
    Condition.ofChars t = Condition.ofParts before (x :: rest) := by
  have happ := breakAtOperator_append start (Text.trim t)
  rw [h] at happ
  have hempty : (Text.trim t).isEmpty = false := by
    rw [← happ]
    simp
  rw [Condition.ofChars, h]
  simp only [hempty, Bool.false_eq_true, if_false]

/-- and nowhere else. -/
theorem ofChars_of_no_operator {t before : List Char} {state : ScanState}
    (h : breakAtOperator start (Text.trim t) = (before, [], state)) :
    ∃ e : ConditionError, Condition.ofChars t = .error e ∧ e.blamesOperator = false := by
  rw [Condition.ofChars, h]
  split
  · exact ⟨_, rfl, rfl⟩
  · cases state <;> exact ⟨_, rfl, rfl⟩

theorem ofChars_eq_ok_iff {t : List Char} {c : Condition} :
    Condition.ofChars t = .ok c ↔
      ∃ before x rest state, breakAtOperator start (Text.trim t) = (before, x :: rest, state) ∧
        Condition.ofParts before (x :: rest) = .ok c := by
  rcases hscan : breakAtOperator start (Text.trim t) with ⟨before, _ | ⟨x, rest⟩, state⟩
  · obtain ⟨e, he, -⟩ := ofChars_of_no_operator hscan
    rw [he]
    refine ⟨fun h => ?_, fun ⟨_, _, _, _, he, _⟩ => ?_⟩
    · cases h
    · cases he
  · rw [ofChars_of_operator hscan]
    constructor
    · intro h
      exact ⟨before, x, rest, state, rfl, h⟩
    · rintro ⟨_, _, _, _, he, h⟩
      cases he
      exact h

/-- What has a derivation is read. -/
theorem ofChars_of_derivation {t : List Char} (d : Derivation (Text.trim t)) :
    Condition.ofChars t = .ok d.condition := by
  obtain ⟨c, r, hc, -⟩ := d.operator.exists_chars_eq_cons
  have hscan := d.breakAtOperator_eq
  have hop := d.longest?_eq
  have hpath : parseSegments (Text.trim d.before) = .ok d.steps.segments := by
    rw [d.trim_before, parseSegments_text]
  have hne : Text.trim d.before ≠ [] := by
    rw [d.trim_before]
    exact d.steps.text_ne_nil
  have hread := ofParts_of_parts hop hne hpath
  rw [List.drop_left, literal_iff.mp d.literal] at hread
  rw [hc, List.cons_append] at hscan hread
  exact ofChars_eq_ok_iff.mpr ⟨_, _, _, _, hscan, hread⟩

/-- What is read has a derivation. -/
theorem exists_derivation_of_ofChars {t : List Char} {c : Condition}
    (h : Condition.ofChars t = .ok c) : ∃ d : Derivation (Text.trim t), d.condition = c := by
  obtain ⟨before, x, rest, state, hscan, hparts⟩ := ofChars_eq_ok_iff.mp h
  obtain ⟨op, segments, hop, hpath, rfl⟩ := exists_parts_of_ofParts hparts
  have happ := breakAtOperator_append start (Text.trim t)
  have hpass := @passes_breakAtOperator start (Text.trim t)
  rw [hscan] at happ hpass
  dsimp only at happ hpass
  -- the scan walks over the path with the blanks around it, so over the path
  obtain ⟨w, w', hw, hw', he⟩ := Text.exists_eq_trim before
  rw [he, passes_append, run_start_blanks hw, passes_append] at hpass
  obtain ⟨p, hp, rfl⟩ := exists_steps_of_parseSegments hpath hpass.2.1
  obtain ⟨⟨after, hafter⟩, hmax⟩ := Operator.longest?_eq_some_iff.mp hop
  rw [← hafter] at happ hmax ⊢
  rw [List.drop_left]
  exact ⟨⟨before, op, after, p, _, happ.symm, hp.symm, literal_iff.mpr rfl,
    fun c hc => p.not_operator_of_mem_unquoted hc, hmax⟩, rfl⟩

/-- **Conditions are read by their grammar.** A text is read as a condition exactly
if it has a derivation, and then as the condition that is derived; and it has at
most one. -/
theorem parse_eq_ok_iff_derivation (s : String) :
    (∀ c, Condition.parse s = .ok c ↔
      ∃ d : Derivation (Text.trim s.toList), d.condition = c) ∧
    Subsingleton (Derivation (Text.trim s.toList)) := by
  refine ⟨fun c => ⟨exists_derivation_of_ofChars, ?_⟩, ⟨Derivation.eq⟩⟩
  rintro ⟨d, rfl⟩
  exact ofChars_of_derivation d

end Grammar

end JsonSieve
