import JsonSieve.Proofs.Document.Spelling
import JsonSieve.Proofs.Number.Written
import JsonSieve.Stream.Line

/-!
# Documents are read back

A document that fits the levels of the reader is read back from its written form,
provided that the doubles in it are (`JsonSieve.Document.parse_toChars`). For the written
form is one of its spellings (`JsonSieve.Document.Fits.spelling_toChars`), every spelling
is read as the canonical form, and what fits is that already.

A double need not be read back: the reader may round to another double than the one that
was written. So the doubles that occur in a document are collected
(`JsonSieve.Document.reals`), and of them it is asked.
-/

namespace JsonSieve

namespace Document

/-! ### The doubles in a document -/

mutual

/-- **The doubles that occur in a document.** -/
def reals : Document → List Binary64.Finite
  | number (.real x) => [x]
  | array elements => realsOfElements elements
  | object members => realsOfMembers members
  | number (.integer _ _) => []
  | null => []
  | bool _ => []
  | string _ => []

/-- The doubles that occur in elements. -/
def realsOfElements : List Document → List Binary64.Finite
  | [] => []
  | d :: rest => d.reals ++ realsOfElements rest

/-- The doubles that occur in the values of members. -/
def realsOfMembers : List (String × Document) → List Binary64.Finite
  | [] => []
  | (_, v) :: rest => v.reals ++ realsOfMembers rest

end

theorem reals_subset_array {elements : List Document} {d : Document} (h : d ∈ elements) :
    d.reals ⊆ (array elements).reals := by
  rw [reals]
  induction elements with
  | nil => cases h
  | cons head rest ih =>
    rw [realsOfElements]
    rcases List.mem_cons.mp h with rfl | h
    · exact List.subset_append_left _ _
    · exact List.Subset.trans (ih h) (List.subset_append_right _ _)

theorem reals_subset_object {members : Members} {m : String × Document} (h : m ∈ members) :
    m.2.reals ⊆ (object members).reals := by
  rw [reals]
  induction members with
  | nil => cases h
  | cons head rest ih =>
    rw [realsOfMembers]
    rcases List.mem_cons.mp h with rfl | h
    · exact List.subset_append_left _ _
    · exact List.Subset.trans (ih h) (List.subset_append_right _ _)

/-! ### How a value begins -/

/-- A line does not count digits among its blanks. -/
theorem line_isBlank_eq_false_of_digit {b : UInt8} (h : (Ascii.digit? b).isSome = true) :
    Stream.isBlank b = false := by
  have hne {a : UInt8} (ha : Ascii.digit? a = none) : b ≠ a := NumberText.ne_of_digit h ha
  simp [Stream.isBlank, hne (a := Ascii.space) rfl, hne (a := Ascii.newline) rfl,
    hne (a := Ascii.tab) rfl, hne (a := Ascii.carriageReturn) rfl, hne (a := Ascii.formFeed) rfl]

theorem exists_encode_numberText (n : NumberText) :
    ∃ b t, Utf8.encode n.text = b :: t ∧ Stream.isBlank b = false := by
  obtain ⟨c, ds, hwhole, hc⟩ := NumberText.exists_cons_of_isDigit n.whole_ne_nil
  rw [NumberText.encode_text, NumberText.text, NumberText.unsigned, hwhole]
  cases n.negative with
  | true => exact ⟨Ascii.minus, _, rfl, rfl⟩
  | false =>
    refine ⟨Ascii.byte c, _, rfl, line_isBlank_eq_false_of_digit ?_⟩
    rw [NumberText.digit?_byte hc]
    rfl

/-- The written form of a document does not begin with a blank. -/
theorem exists_encode_toChars (d : Document) :
    ∃ b t, Utf8.encode d.toChars = b :: t ∧ Stream.isBlank b = false := by
  cases d with
  | null => exact ⟨Ascii.byte 'n', _, rfl, rfl⟩
  | bool value => cases value <;> exact ⟨_, _, rfl, rfl⟩
  | number v =>
    obtain ⟨n, hn, -⟩ := NumberText.exists_text_eq_toChars v
    rw [toChars, ← hn]
    exact exists_encode_numberText n
  | string s =>
    obtain ⟨content, -, ht⟩ := stringSpelling_quoted s
    exact ⟨Ascii.quote, _, ht, rfl⟩
  | array elements =>
    cases elements <;> exact ⟨Ascii.leftBracket, _, rfl, rfl⟩
  | object members =>
    cases members <;> exact ⟨Ascii.leftBrace, _, rfl, rfl⟩

/-! ### Written forms are spellings -/

theorem encode_elementsToChars (elements : List Document) :
    Utf8.encode (elementsToChars elements) =
      (elements.map fun d => Utf8.encode d.toChars).flatMap (Ascii.comma :: ·) ++
        [Ascii.rightBracket] := by
  induction elements with
  | nil => rfl
  | cons d rest ih =>
    rw [elementsToChars, Utf8.encode_cons, Utf8.encode_append, ih]
    simp only [List.map_cons, List.flatMap_cons, List.cons_append, List.append_assoc]
    rfl

theorem encode_toChars_array (elements : List Document) :
    Utf8.encode (array elements).toChars = Ascii.leftBracket ::
      (separated (elements.map fun d => Utf8.encode d.toChars) ++ [Ascii.rightBracket]) := by
  cases elements with
  | nil => rfl
  | cons d rest =>
    rw [toChars, Utf8.encode_cons, Utf8.encode_append, encode_elementsToChars, List.map_cons,
      separated, List.append_assoc]
    rfl

/-- A member as it is written. -/
def entryOf (m : String × Document) : Entry where
  key := m.1
  value := m.2
  keyText := Utf8.encode (quoted m.1)
  valueText := Utf8.encode m.2.toChars

theorem encode_membersToChars (members : Members) :
    Utf8.encode (membersToChars members) =
      ((members.map entryOf).map Entry.text).flatMap (Ascii.comma :: ·) ++
        [Ascii.rightBrace] := by
  induction members with
  | nil => rfl
  | cons m rest ih =>
    rw [membersToChars, Utf8.encode_cons, Utf8.encode_append, Utf8.encode_cons,
      Utf8.encode_append, ih]
    simp only [List.map_cons, List.flatMap_cons, List.cons_append, List.append_assoc, Entry.text]
    rfl

theorem encode_toChars_object (members : Members) :
    Utf8.encode (object members).toChars = Ascii.leftBrace ::
      (separated ((members.map entryOf).map Entry.text) ++ [Ascii.rightBrace]) := by
  cases members with
  | nil => rfl
  | cons m rest =>
    rw [toChars, Utf8.encode_cons, Utf8.encode_append, Utf8.encode_cons, Utf8.encode_append,
      encode_membersToChars]
    simp only [List.map_cons, separated, List.cons_append, List.append_assoc, Entry.text]
    rfl

/-- **The written form of a document is one of its spellings**, if its doubles are read
back. -/
theorem Fits.spelling_toChars {n : Nat} {d : Document} (h : d.Fits n)
    (hreals : ∀ x ∈ d.reals, x.IsReadBack) : Spelling d (Utf8.encode d.toChars) := by
  induction h with
  | null n => exact .null
  | bool n value =>
    cases value with
    | true => exact .true
    | false => exact .false
  | number n v =>
    obtain ⟨text, htext, hv⟩ := NumberText.exists_text_eq_toChars v
    rw [toChars, ← htext]
    refine .number text (hv ?_)
    rintro x rfl
    exact hreals x List.mem_cons_self
  | string n s => exact .string (stringSpelling_quoted s)
  | @array n elements h ih =>
    have hparts := Spelling.array blanks_nil (elements.map fun d => (d, Utf8.encode d.toChars))
      (List.forall_mem_map.mpr fun d hd =>
        ih d hd fun x hx => hreals x (reals_subset_array hd hx))
    have hdocuments : (elements.map fun d => (d, Utf8.encode d.toChars)).map Prod.fst = elements :=
      List.map_map.trans (List.map_id elements)
    have htexts : (elements.map fun d => (d, Utf8.encode d.toChars)).map Prod.snd =
        elements.map fun d => Utf8.encode d.toChars := List.map_map
    rw [hdocuments, htexts] at hparts
    rw [encode_toChars_array]
    exact hparts
  | @object n members hsorted h ih =>
    rw [encode_toChars_object]
    refine .object blanks_nil (members.map entryOf) ?_ ?_ ?_
    · rw [List.map_map]
      exact .of_eq (List.map_id members)
    · refine List.forall_mem_map.mpr fun m _ => ?_
      exact ⟨[], _, [], blanks_nil, stringSpelling_quoted m.1, blanks_nil, by simp [entryOf]⟩
    · exact List.forall_mem_map.mpr fun m hm =>
        ih m hm fun x hx => hreals x (reals_subset_object hm hx)

/-! ### Written forms are read -/

/-- **A document is read from its written form** where `n` levels are left, and reading
goes on after it. -/
def IsReadIn (n : Nat) (d : Document) : Prop :=
  ∀ (frames : List Frame) (r : List UInt8), frames.length + n ≤ maxDepth →
    NumberText.EndsNumber r →
    (State.value frames).run (Utf8.encode d.toChars ++ r) = (State.complete d frames).run r

/-- **Every document that fits is read from its written form**, wherever it stands. -/
theorem Fits.isReadIn {n : Nat} {d : Document} (h : d.Fits n)
    (hreals : ∀ x ∈ d.reals, x.IsReadBack) : IsReadIn n d := by
  intro frames r hdepth hr
  have hread := (h.spelling_toChars hreals).isReadAs h.legible
  rw [h.canonical_eq] at hread
  exact hread _ _ _ (awaits_value frames) hdepth hr

/-- **A document is read back** from its written form if it has the shape of documents
that are read, and if its doubles are read back. -/
theorem parse_toChars {d : Document} (h : d.Fits maxDepth) (hreals : ∀ x ∈ d.reals, x.IsReadBack) :
    parse (Utf8.encode d.toChars) = .ok d := by
  have hread : read (Utf8.encode d.toChars) = .ok d := by
    have hrun := h.isReadIn hreals [] [] (by decide) NumberText.endsNumber_nil
    rw [List.append_nil] at hrun
    exact hrun.trans (State.run_of_end rfl)
  rw [parse, hread]

end Document

end JsonSieve
