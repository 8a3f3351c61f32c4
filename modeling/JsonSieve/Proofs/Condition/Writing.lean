import Mathlib.Data.List.Forall2
import JsonSieve.Proofs.Condition.Reading

/-!
# Writing conditions

A condition has no escapes. A key is written between quotation marks of which it
holds none, and a key that holds both is written bare, if it can be
(`JsonSieve.WrittenKey`); a literal is written between any two equal quotation marks,
whatever it holds. This file says which steps can be written at all
(`JsonSieve.Segment.IsExpressible`) and what the text of a path is
(`JsonSieve.WrittenPath`). A condition that is written so is read back as it was, and
nothing is ever read that could not be written (`JsonSieve.parse_conditionText`).

Nothing of a literal or of a quoted key gets anywhere else, because what is written is
a text of the grammar: each written step is a tree
(`JsonSieve.Segment.Written.exists_step`), and a path with an operator and a literal
after single blanks has a derivation (`JsonSieve.Grammar.Derivation.ofSteps`).
-/

namespace JsonSieve

/-! ### Where a step and an operator end -/

theorem Operator.isOperatorChar_of_mem_chars {op : Operator} {c : Char} (hc : c ∈ op.chars) :
    isOperatorChar c = true := by
  have h : ∀ c ∈ op.chars, isOperatorChar c = true := by
    cases op <;> exact List.all_eq_true.mp rfl
  exact h c hc

/-- Where no operator goes on, an operator is as long as it can be. -/
theorem Operator.length_chars_le_of_stops {op other : Operator} {after : List Char}
    (hafter : Stops isOperatorChar after) (h : other.chars <+: op.chars ++ after) :
    other.chars.length ≤ op.chars.length := by
  by_contra hlt
  -- the longer operator goes on with the first character after the shorter one
  obtain ⟨t, ht⟩ := List.prefix_of_prefix_length_le (List.prefix_append op.chars after) h
    (Nat.le_of_not_le hlt)
  cases t with
  | nil => exact hlt (Nat.le_of_eq (by rw [← ht, List.append_nil]))
  | cons c t =>
    rw [← ht, List.prefix_append_right_inj] at h
    obtain ⟨u, rfl⟩ := h
    have hmem : c ∈ other.chars := by
      rw [← ht]
      exact List.mem_append_right _ List.mem_cons_self
    have hc := Operator.isOperatorChar_of_mem_chars hmem
    exact absurd hc (by rw [stops_cons.mp hafter]; exact Bool.false_ne_true)

namespace Grammar

theorem Index.stops_reverse_texts (is : List Index) :
    Stops Text.isBlank (Index.texts is).reverse := by
  induction is with
  | nil => exact stops_nil
  | cons i is ih =>
    rw [Index.texts_cons, List.reverse_append]
    rcases eq_or_ne (Index.texts is) [] with hnil | hne
    · rw [hnil, Index.text, List.reverse_cons, List.reverse_append]
      exact stops_cons.mpr (by decide)
    · exact ih.append (by simpa using hne) _

/-- What is followed by indices ends with a bracket, or as it did. -/
theorem Index.stops_reverse_append_texts {t : List Char} (ht : Stops Text.isBlank t.reverse)
    (is : List Index) : Stops Text.isBlank (t ++ Index.texts is).reverse := by
  rw [List.reverse_append]
  rcases eq_or_ne (Index.texts is) [] with hnil | hne
  · rwa [hnil]
  · exact (Index.stops_reverse_texts is).append (by simpa using hne) _

theorem stops_isBlank_of_isQuote {q : Char} (hq : isQuote q = true) (t : List Char) :
    Stops Text.isBlank (q :: t) := by
  refine stops_cons.mpr (Bool.eq_false_iff.mpr fun hb => ?_)
  rw [isQuote_eq_false_of_isBlank hb] at hq
  cases hq

theorem Step.text_ne_nil (s : Step) : s.text ≠ [] := by
  obtain ⟨c, r, hc, -⟩ := s.exists_text_eq_cons
  rw [hc]
  exact List.cons_ne_nil c r

/-- **A step has blanks at neither end.** -/
theorem Step.isTrimmed_text (s : Step) : Text.IsTrimmed s.text := by
  obtain ⟨c, r, hc, hb⟩ := s.exists_text_eq_cons
  refine ⟨hc ▸ stops_cons.mpr hb, ?_⟩
  cases s with
  | quoted q key is hq hk =>
    have hquote : Stops Text.isBlank (q :: (key ++ [q])).reverse := by
      rw [← List.cons_append, List.reverse_append]
      exact stops_isBlank_of_isQuote hq _
    simpa [Step.text] using Index.stops_reverse_append_texts hquote is
  | bare key gap is h hgap =>
    cases is with
    | nil =>
      rw [Step.text, hgap rfl]
      simpa [noBlanks] using h.isTrimmed.last
    | cons i is =>
      rw [Step.text, List.reverse_append, List.reverse_append, List.append_assoc]
      exact (Index.stops_reverse_texts (i :: is)).append (by simp [Index.text]) _
  | indexed first more => exact Index.stops_reverse_texts (first :: more)

/-! ### A path, an operator and a literal -/

theorem trim_spaced {path : List Char} (hpath : Text.IsTrimmed path) (hne : path ≠ [])
    (op : Operator) (value : List Char) :
    Text.trim (path ++ ' ' :: (op.chars ++ ' ' :: value)) =
      (path ++ [' ']) ++ (op.chars ++ Text.trimEnd (' ' :: value)) := by
  have hop : Stops Text.isBlank ((path ++ [' ']) ++ op.chars).reverse := by
    rw [List.reverse_append]
    refine Stops.append ?_ ?_ _
    · cases op <;> exact stops_cons.mpr (by decide)
    · cases op <;> decide
  have hassoc : path ++ ' ' :: (op.chars ++ ' ' :: value) =
      ((path ++ [' ']) ++ op.chars) ++ (' ' :: value) := by simp
  rw [Text.trim, Text.trimStart_eq_self (hpath.head.append hne _), hassoc,
    Text.trimEnd_append_of_stops hop, List.append_assoc]

theorem literal_spaced (value : List Char) :
    Literal (Text.trim (Text.trimEnd (' ' :: value))) (unquote (Text.trim value)) := by
  rw [Text.trim_trimEnd, Text.trim_cons_of_isBlank (by decide)]
  exact literal_iff.mpr rfl

/-- **A path, an operator and a literal** with single blanks around the operator have a
derivation, unless there are blanks around the path. -/
def Derivation.ofSteps (p : Steps) (hp : Text.IsTrimmed p.text) (op : Operator)
    (value : List Char) : Derivation (Text.trim (p.text ++ ' ' :: (op.chars ++ ' ' :: value))) where
  before := p.text ++ [' ']
  operator := op
  after := Text.trimEnd (' ' :: value)
  steps := p
  value := unquote (Text.trim value)
  text_eq := trim_spaced hp p.text_ne_nil op value
  trim_before := Text.trim_append (w := []) (by simp) (List.all_eq_true.mp rfl) hp
  literal := literal_spaced value
  not_operator := fun _ hc => p.not_operator_of_mem_unquoted hc
  longest := fun _ h =>
    Operator.length_chars_le_of_stops (Text.stops_trimEnd (stops_cons.mpr (by decide))) h

/-- It is read as what it says, the literal without the blanks and the quotation marks
around it. -/
theorem ofChars_spaced (p : Steps) (hp : Text.IsTrimmed p.text) (op : Operator)
    (value : List Char) :
    Condition.ofChars (p.text ++ ' ' :: (op.chars ++ ' ' :: value)) =
      .ok ⟨⟨String.ofList p.text, p.segments⟩, op, String.ofList (unquote (Text.trim value))⟩ := by
  refine (ofChars_of_derivation (Derivation.ofSteps p hp op value)).trans ?_
  have hbefore : Text.trim (p.text ++ [' ']) = p.text :=
    (Derivation.ofSteps p hp op value).trim_before
  rw [Derivation.condition, Derivation.ofSteps, hbefore]

end Grammar

/-! ### What can be written -/

/-- **A key that can be written**: it lacks one of the quotation marks, or else it can
stand without any. -/
def IsExpressibleKey (key : List Char) : Prop :=
  '\'' ∉ key ∨ '"' ∉ key ∨
    Text.IsTrimmed key ∧ Stops isQuote key ∧
      ∀ c ∈ key, c ≠ '.' ∧ c ≠ '[' ∧ isOperatorChar c = false

/-- **A step that can be written.** -/
structure Segment.IsExpressible (s : Segment) : Prop where
  /-- Its key can be written, if it has one. -/
  key : ∀ k, s.key = some k → IsExpressibleKey k.toList
  /-- If it has none, there are indices. -/
  indices_ne_nil : s.key = none → s.indices ≠ []
  /-- Its indices have 64 bits. -/
  lt_limit : ∀ i ∈ s.indices, i < Nat.pow 2 64

/-- The texts of a key: between quotation marks that it lacks, or bare if it holds
both. -/
inductive WrittenKey (key : List Char) : List Char → Prop
  /-- Between quotation marks. -/
  | quoted (q : Char) (hq : isQuote q = true) (hk : q ∉ key) : WrittenKey key (q :: (key ++ [q]))
  /-- Bare. -/
  | bare (h : ∀ q, isQuote q = true → q ∈ key) : WrittenKey key key

/-- An index between brackets. -/
def bracketed (i : Nat) : List Char := '[' :: (Nat.toDigits 10 i ++ [']'])

/-- The texts of a step: its key, if it has one, and its indices. -/
inductive Segment.Written : Segment → List Char → Prop
  /-- A step with a key. -/
  | keyed {key : String} {text : List Char} (h : WrittenKey key.toList text) (indices : List Nat) :
    Written ⟨some key, indices⟩ (text ++ indices.flatMap bracketed)
  /-- A step without a key. -/
  | unkeyed (indices : List Nat) : Written ⟨none, indices⟩ (indices.flatMap bracketed)

/-- The texts of a path: those of its steps, with points between them. -/
def WrittenPath (segments : List Segment) (text : List Char) : Prop :=
  ∃ texts, List.Forall₂ Segment.Written segments texts ∧ text = ['.'].intercalate texts

/-- The text of a condition: a path, an operator, and a literal between quotation
marks. -/
def conditionText (path : List Char) (op : Operator) (q : Char) (value : String) : String :=
  String.ofList (path ++ ' ' :: (op.chars ++ ' ' :: q :: (value.toList ++ [q])))

/-! ### What is written is in the grammar -/

namespace Grammar

/-- The index that writes a number. -/
def Index.ofNat (i : Nat) (h : i < Nat.pow 2 64) : Index where
  before := noBlanks
  digits := Nat.toDigits 10 i
  after := noBlanks
  digits_ne_nil := Nat.toDigits_ne_nil
  isDigit := fun _ hc => Nat.isDigit_of_mem_toDigits (by decide) (by decide) hc
  lt_limit := by rwa [Nat.ofDigitChars_toDigits (by decide) (by decide)]

theorem Index.exists_of_bracketed {is : List Nat} (h : ∀ i ∈ is, i < Nat.pow 2 64) :
    ∃ js : List Index, Index.texts js = is.flatMap bracketed ∧ js.map Index.value = is := by
  induction is with
  | nil => exact ⟨[], rfl, rfl⟩
  | cons i is ih =>
    rw [List.forall_mem_cons] at h
    obtain ⟨js, htext, hvalue⟩ := ih h.2
    refine ⟨Index.ofNat i h.1 :: js, ?_, ?_⟩
    · rw [Index.texts_cons, htext, List.flatMap_cons]
      simp [Index.text, Index.inner, Index.ofNat, noBlanks, bracketed]
    · have hi : (Index.ofNat i h.1).value = i :=
        Nat.ofDigitChars_toDigits (by decide) (by decide)
      rw [List.map_cons, hi, hvalue]

end Grammar

open Grammar

theorem isQuote_iff {q : Char} : isQuote q = true ↔ q = '\'' ∨ q = '"' := by
  simp [isQuote]

/-- A key with both quotation marks can be written bare or not at all. -/
theorem IsExpressibleKey.isBareKey {key : List Char} (h : IsExpressibleKey key)
    (hboth : ∀ q, isQuote q = true → q ∈ key) : IsBareKey key := by
  have hsingle : '\'' ∈ key := hboth _ (by decide)
  have hdouble : '"' ∈ key := hboth _ (by decide)
  rcases h with h | h | ⟨htrim, hquote, hall⟩
  · exact absurd hsingle h
  · exact absurd hdouble h
  · exact ⟨List.ne_nil_of_mem hsingle, htrim, hquote, fun hc => (hall _ hc).1 rfl,
      fun hc => (hall _ hc).2.1 rfl, fun c hc => (hall c hc).2.2⟩

/-- **A written step is a step of the grammar.** -/
theorem Segment.Written.exists_step {s : Segment} {text : List Char} (hw : s.Written text)
    (hs : s.IsExpressible) : ∃ step : Step, step.text = text ∧ step.segment = s := by
  cases hw with
  | @keyed key text hkey indices =>
    obtain ⟨is, htext, hvalue⟩ := Index.exists_of_bracketed hs.lt_limit
    have hname : String.ofList key.toList = key := String.ofList_toList
    cases hkey with
    | quoted q hq hk =>
      refine ⟨.quoted q key.toList is hq hk, ?_, ?_⟩
      · rw [Step.text, htext, List.cons_append, List.append_assoc]
        rfl
      · rw [Step.segment, hvalue, hname]
    | bare hboth =>
      have hbare := (hs.key key rfl).isBareKey hboth
      refine ⟨.bare key.toList noBlanks is hbare fun _ => rfl, ?_, ?_⟩
      · rw [Step.text, htext]
        rfl
      · rw [Step.segment, hvalue, hname]
  | unkeyed indices =>
    obtain ⟨is, htext, hvalue⟩ := Index.exists_of_bracketed hs.lt_limit
    cases is with
    | nil => exact absurd hvalue.symm (hs.indices_ne_nil rfl)
    | cons i is =>
      refine ⟨.indexed i is, htext, ?_⟩
      rw [Step.segment, hvalue]

/-- **A written path is a path of the grammar**, with blanks at neither end. -/
theorem exists_steps_of_writtenPath {segments : List Segment} {text : List Char}
    (hne : segments ≠ []) (hs : ∀ s ∈ segments, s.IsExpressible) (hw : WrittenPath segments text) :
    ∃ p : Steps, p.text = text ∧ p.segments = segments ∧ Text.IsTrimmed p.text := by
  obtain ⟨texts, hall, rfl⟩ := hw
  induction hall with
  | nil => exact absurd rfl hne
  | @cons s t segments texts hst hrest ih =>
    rw [List.forall_mem_cons] at hs
    obtain ⟨step, rfl, rfl⟩ := hst.exists_step hs.1
    have hspaced : (⟨noBlanks, step, noBlanks⟩ : Spaced).text = step.text := by
      simp [Spaced.text, noBlanks]
    cases hrest with
    | nil =>
      refine ⟨.last ⟨noBlanks, step, noBlanks⟩, ?_, rfl, ?_⟩
      · rw [Steps.text, hspaced, List.intercalate_singleton]
      · rw [Steps.text, hspaced]
        exact step.isTrimmed_text
    | cons hst' hrest' =>
      obtain ⟨p, hp, hseg, htrim⟩ := ih (List.cons_ne_nil _ _) hs.2
      refine ⟨.cons ⟨noBlanks, step, noBlanks⟩ p, ?_, ?_, ?_, ?_⟩
      · rw [Steps.text, hspaced, hp, List.intercalate_cons_cons, List.append_assoc]
        rfl
      · rw [Steps.segments, hseg]
      · rw [Steps.text, hspaced]
        exact step.isTrimmed_text.head.append step.text_ne_nil _
      · rw [Steps.text, List.reverse_append, List.reverse_cons, List.append_assoc]
        exact htrim.last.append (by simpa using p.text_ne_nil) _

/-! ### What is read can be written -/

theorem Grammar.IsBareKey.isExpressibleKey {key : List Char} (h : IsBareKey key) :
    IsExpressibleKey key := by
  refine Or.inr (Or.inr ⟨h.isTrimmed, h.head_not_quote, fun c hc => ⟨?_, ?_, h.not_operator c hc⟩⟩)
  · rintro rfl
    exact h.point_not_mem hc
  · rintro rfl
    exact h.bracket_not_mem hc

/-- The steps of the grammar can be written. -/
theorem Grammar.Step.isExpressible_segment (s : Step) : s.segment.IsExpressible := by
  have hindices : ∀ {is : List Index}, ∀ n ∈ is.map Index.value, n < Nat.pow 2 64 := by
    intro is n hn
    obtain ⟨i, -, rfl⟩ := List.mem_map.mp hn
    exact i.lt_limit
  cases s with
  | quoted q key is hq hk =>
    refine ⟨?_, fun hnone => (by cases hnone), hindices⟩
    rintro _ ⟨rfl⟩
    rw [String.toList_ofList]
    rcases isQuote_iff.mp hq with rfl | rfl
    · exact Or.inl hk
    · exact Or.inr (Or.inl hk)
  | bare key gap is h hgap =>
    refine ⟨?_, fun hnone => (by cases hnone), hindices⟩
    rintro _ ⟨rfl⟩
    rw [String.toList_ofList]
    exact h.isExpressibleKey
  | indexed first more =>
    exact ⟨fun _ hkey => (by cases hkey), fun _ => List.cons_ne_nil _ _, hindices⟩

theorem Grammar.Steps.isExpressible_of_mem_segments (p : Steps) :
    p.segments ≠ [] ∧ ∀ s ∈ p.segments, s.IsExpressible := by
  induction p with
  | last s =>
    refine ⟨List.cons_ne_nil _ _, ?_⟩
    simpa [Steps.segments] using s.step.isExpressible_segment
  | cons s rest ih =>
    refine ⟨List.cons_ne_nil _ _, ?_⟩
    rw [Steps.segments, List.forall_mem_cons]
    exact ⟨s.step.isExpressible_segment, ih.2⟩

/-! ### Written conditions are read back -/

/-- Every step has a text. -/
theorem Segment.exists_written (s : Segment) : ∃ text, s.Written text := by
  obtain ⟨key, indices⟩ := s
  cases key with
  | none => exact ⟨_, .unkeyed indices⟩
  | some key =>
    by_cases hboth : ∀ q, isQuote q = true → q ∈ key.toList
    · exact ⟨_, .keyed (.bare hboth) indices⟩
    · push Not at hboth
      obtain ⟨q, hq, hk⟩ := hboth
      exact ⟨_, .keyed (.quoted q hq hk) indices⟩

theorem exists_writtenPath (segments : List Segment) : ∃ text, WrittenPath segments text := by
  suffices h : ∃ texts, List.Forall₂ Segment.Written segments texts by
    obtain ⟨texts, hall⟩ := h
    exact ⟨_, texts, hall, rfl⟩
  induction segments with
  | nil => exact ⟨[], .nil⟩
  | cons s segments ih =>
    obtain ⟨text, hs⟩ := s.exists_written
    obtain ⟨texts, hall⟩ := ih
    exact ⟨text :: texts, .cons hs hall⟩

/-- A literal loses the quotation marks it was given, and nothing else. -/
theorem unquote_trim_quoted {q : Char} (hq : isQuote q = true) (value : List Char) :
    unquote (Text.trim (q :: (value ++ [q]))) = value := by
  have htrim : Text.IsTrimmed (q :: (value ++ [q])) := by
    refine ⟨stops_isBlank_of_isQuote hq _, ?_⟩
    rw [← List.cons_append, List.reverse_append]
    exact stops_isBlank_of_isQuote hq _
  rw [htrim.trim_eq]
  exact Grammar.literal_iff.mp (.quoted value hq)

theorem parse_of_writtenPath {segments : List Segment} (hne : segments ≠ [])
    (hs : ∀ s ∈ segments, s.IsExpressible) {path : List Char} (hpath : WrittenPath segments path)
    (op : Operator) {q : Char} (hq : isQuote q = true) (value : String) :
    Condition.parse (conditionText path op q value) =
      .ok ⟨⟨String.ofList path, segments⟩, op, value⟩ := by
  obtain ⟨p, rfl, rfl, htrim⟩ := exists_steps_of_writtenPath hne hs hpath
  rw [Condition.parse, conditionText, String.toList_ofList, ofChars_spaced p htrim,
    unquote_trim_quoted hq, String.ofList_toList]

/-- **Every condition can be written, and is read back exactly**: its path, its operator
and its literal, whatever the literal and the quoted keys hold. And whatever is read as a
condition has steps that can be written. -/
theorem parse_conditionText :
    (∀ segments : List Segment, segments ≠ [] → (∀ s ∈ segments, s.IsExpressible) →
      (∃ path, WrittenPath segments path) ∧
      ∀ path, WrittenPath segments path →
        ∀ (op : Operator) (q : Char), isQuote q = true → ∀ value : String,
          Condition.parse (conditionText path op q value) =
            .ok ⟨⟨String.ofList path, segments⟩, op, value⟩) ∧
    ∀ (s : String) (c : Condition), Condition.parse s = .ok c →
      c.path.segments ≠ [] ∧ ∀ segment ∈ c.path.segments, segment.IsExpressible := by
  refine ⟨fun segments hne hs => ⟨exists_writtenPath segments, ?_⟩, ?_⟩
  · intro path hpath op q hq value
    exact parse_of_writtenPath hne hs hpath op hq value
  · intro s c hc
    obtain ⟨d, rfl⟩ := exists_derivation_of_ofChars hc
    exact d.steps.isExpressible_of_mem_segments

/-- A key with both quotation marks, indices alone, and the empty key. -/
def hardSegments : List Segment :=
  [⟨some "5' 3\"", [0, 18446744073709551615]⟩, ⟨none, [7]⟩, ⟨some "", []⟩]

/-- The path with these steps. -/
def hardPath : List Char := "5' 3\"[0][18446744073709551615].[7].''".toList

/-- A bare key with quotation marks, before a literal that looks like a condition. -/
theorem parse_hardPath :
    hardSegments ≠ [] ∧ (∀ s ∈ hardSegments, s.IsExpressible) ∧ WrittenPath hardSegments hardPath ∧
      isQuote '"' = true ∧
      Condition.parse (conditionText hardPath .notLike '"' "a.'b' >= \"c\" ") =
        .ok ⟨⟨String.ofList hardPath, hardSegments⟩, .notLike, "a.'b' >= \"c\" "⟩ ∧
      ∃ s, Condition.parse s = .ok ⟨⟨String.ofList hardPath, hardSegments⟩, .equal, ""⟩ ∧
        ∀ segment ∈ hardSegments, segment.IsExpressible := by
  have hne : hardSegments ≠ [] := by decide
  have hs : ∀ s ∈ hardSegments, s.IsExpressible := by
    have hkey : IsExpressibleKey "5' 3\"".toList := by
      have hchars : ("5' 3\"".toList.all fun c => c != '.' && c != '[' && !isOperatorChar c) =
          true := rfl
      refine Or.inr (Or.inr ⟨⟨?_, ?_⟩, ?_, fun c hc => ?_⟩)
      · exact stops_cons.mpr (by decide)
      · exact stops_cons.mpr (by decide)
      · exact stops_cons.mpr (by decide)
      · simpa [and_assoc] using List.all_eq_true.mp hchars c hc
    intro s hs
    simp only [hardSegments, List.mem_cons, List.not_mem_nil, or_false] at hs
    rcases hs with rfl | rfl | rfl
    · exact ⟨by rintro _ ⟨rfl⟩; exact hkey, by decide, by decide⟩
    · exact ⟨fun _ h => (by cases h), by decide, by decide⟩
    · exact ⟨by rintro _ ⟨rfl⟩; exact Or.inl (by decide), by decide, by decide⟩
  have hpath : WrittenPath hardSegments hardPath := by
    have hboth : ∀ q, isQuote q = true → q ∈ "5' 3\"".toList := by
      intro q hq
      rcases isQuote_iff.mp hq with rfl | rfl <;> decide
    refine ⟨_, .cons (.keyed (.bare hboth) _) (.cons (.unkeyed _) (.cons
      (.keyed (.quoted '\'' (by decide) (by decide)) _) .nil)), ?_⟩
    decide
  have hquote : isQuote '"' = true := by decide
  have hread := (parse_conditionText.1 hardSegments hne hs).2 hardPath hpath
  refine ⟨hne, hs, hpath, hquote, hread .notLike '"' hquote _, _, hread .equal '"' hquote "", ?_⟩
  exact (parse_conditionText.2 _ _ (hread .equal '"' hquote "")).2

end JsonSieve
