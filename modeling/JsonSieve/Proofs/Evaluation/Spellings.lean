import JsonSieve.Proofs.Document.RoundTrip
import JsonSieve.Proofs.Evaluation.Leaves

/-!
# An answer does not depend on the spelling

Whatever blanks stand in a document, in whatever order its members come and in whichever way
the characters of its strings are escaped: the answer is the same, and so is the document
that comes with it (`JsonSieve.Condition.evaluate_of_spellings`). For the reader makes the
same of all spellings, the canonical form (`JsonSieve.Condition.evaluate_spelling`), and
nothing else is looked at afterwards.

That two spellings have the same answer would also hold if neither of them were read. So it
is said besides that both are. An answer blames the reader only for what the reader refuses
(`JsonSieve.Condition.evaluate_eq_unreadable_iff`).
-/

namespace JsonSieve

namespace Condition

/-! ### What is read and what is answered -/

theorem answer_ne_unreadable (c : Condition) (kind : Kind) (asked : Option Bool)
    (e : Document.ReadError) : c.answer kind asked ≠ .error (.unreadable e) := by
  cases asked <;> simp [answer]

/-- A value that is compared has been read. -/
theorem judgement_ne_unreadable (c : Condition) (d : Document) (e : Document.ReadError) :
    c.judgement d ≠ .error (.unreadable e) := by
  cases d with
  | null => simp [judgement]
  | array elements => simp [judgement]
  | object members => simp [judgement]
  | string s => exact c.answer_ne_unreadable _ _ e
  | number n =>
    rw [judgement]
    cases Binary64.ofChars? c.value.toList with
    | none => simp
    | some y => exact c.answer_ne_unreadable _ _ e
  | bool b =>
    rw [judgement]
    cases booleanSpellings.lookup c.value with
    | none => simp
    | some y => exact c.answer_ne_unreadable _ _ e

theorem satisfiedBy_ne_unreadable (c : Condition) (d : Document) (e : Document.ReadError) :
    c.satisfiedBy d ≠ .error (.unreadable e) := by
  intro h
  rw [satisfiedBy, follow_eq_firstAnswer] at h
  have hne : firstAnswer ((leaves d c.path.segments).map c.judgement) ≠ .ok false := by
    rw [h]
    simp
  have hmem := firstAnswer_mem hne
  rw [h] at hmem
  obtain ⟨l, -, hl⟩ := List.mem_map.mp hmem
  exact c.judgement_ne_unreadable l e hl

/-- **An answer blames the reader** for nothing but what the reader refuses. -/
theorem evaluate_eq_unreadable_iff (c : Condition) (t : List UInt8) (e : Document.ReadError) :
    c.evaluate t = .error (.unreadable e) ↔ Document.parse t = .error e := by
  rw [evaluate]
  cases hparse : Document.parse t with
  | error e' => simp
  | ok d =>
    cases hanswer : c.satisfiedBy d with
    | error e' =>
      have hne : e' ≠ .unreadable e := fun heq => c.satisfiedBy_ne_unreadable d e (heq ▸ hanswer)
      simp [hanswer, hne]
    | ok matched => simp [hanswer]

/-! ### Spellings -/

/-- **The answer for a spelling** is that for the canonical form of the document, which comes
with it. -/
theorem evaluate_spelling (c : Condition) {d : Document} (hd : d.Legible Document.maxDepth)
    {t : List UInt8} (h : d.Spelling t) :
    c.evaluate t = (c.satisfiedBy d.canonical).map (Evaluation.mk d.canonical) := by
  rw [evaluate, h.parse_eq hd]
  dsimp only
  cases c.satisfiedBy d.canonical <;> rfl

/-- **An answer does not depend on the spelling of the document.** Let no object have a key
twice, and let at most 127 arrays and objects contain one another. Then all spellings have the
same answer: the same error, or the same verdict with the same document. None of them is
refused by the reader. -/
theorem evaluate_of_spellings (c : Condition) {d : Document} (hd : d.Legible 127)
    {t t' : List UInt8} (h : d.Spelling t) (h' : d.Spelling t') :
    c.evaluate t = c.evaluate t' ∧
      ∀ e, c.evaluate t ≠ .error (.unreadable e) := by
  refine ⟨(c.evaluate_spelling hd h).trans (c.evaluate_spelling hd h').symm, fun e he => ?_⟩
  rw [evaluate_eq_unreadable_iff, h.parse_eq hd] at he
  cases he

/-- An object with a smiling face and a slash under `a`. -/
def smiling : Document := .object [("a", .string "😀/"), ("b", .array [.null])]

/-- The same with blanks, `b` first, and `a` and its value in escapes of both cases. -/
def smilingEscaped : List UInt8 :=
  Utf8.bytes " \x7b \"b\" :\t[ null ] ,\r\n\"\\u0061\": \"\\ud83D\\uDE00\\/\"\x7d"

theorem fits_smiling : smiling.Fits 127 := by
  refine .object (List.pairwise_pair.mpr (by decide +kernel)) fun m hm => ?_
  simp only [List.mem_cons, List.not_mem_nil, or_false] at hm
  rcases hm with rfl | rfl
  · exact .string _ _
  · exact .array (List.forall_mem_singleton.mpr (.null _))

theorem stringSpelling_smiling_key : Document.StringSpelling "a" (Utf8.bytes "\"\\u0061\"") := by
  have hletter : Document.CharSpelling 'a' (['\\', 'u', '0', '0', '6', '1'].map Ascii.byte) :=
    .unit (by decide) (.digits (by decide) (by decide) (by decide) (by decide))
  exact ⟨_, .cons hletter .nil, by decide +kernel⟩

theorem stringSpelling_smiling_value :
    Document.StringSpelling "😀/" (Utf8.bytes "\"\\ud83D\\uDE00\\/\"") := by
  have hleading : Document.UnitSpelling 0xD83D (['\\', 'u', 'd', '8', '3', 'D'].map Ascii.byte) :=
    .digits (by decide) (by decide) (by decide) (by decide)
  have htrailing : Document.UnitSpelling 0xDE00 (['\\', 'u', 'D', 'E', '0', '0'].map Ascii.byte) :=
    .digits (by decide) (by decide) (by decide) (by decide)
  have hslash : Document.CharSpelling '/' (['\\', '/'].map Ascii.byte) :=
    .short (show ('/', '/') ∈ Document.shortForms by decide)
  exact ⟨_, .cons (.pair (by decide) hleading htrailing) (.cons hslash .nil), by decide +kernel⟩

theorem spelling_smiling : smiling.Spelling smilingEscaped := by
  have hspace : Document.Blanks [Ascii.space] := by simp [Document.Blanks]
  have htab : Document.Blanks [Ascii.tab] := by simp [Document.Blanks]
  have hbreak : Document.Blanks [Ascii.carriageReturn, Ascii.newline] := by
    simp [Document.Blanks]
  -- the member with the array, and blanks wherever they may stand
  have hb : Document.KeySpelling "b" _ :=
    ⟨_, _, _, hspace, Document.stringSpelling_quoted "b", hspace, rfl⟩
  have hnull := Document.Spelling.blanks hspace .null hspace
  have harray := Document.Spelling.blanks htab (.array Document.blanks_nil [(.null, _)]
    (List.forall_mem_singleton.mpr hnull)) hspace
  -- the member with the escapes
  have ha : Document.KeySpelling "a" _ :=
    ⟨_, _, _, hbreak, stringSpelling_smiling_key, Document.blanks_nil, rfl⟩
  have hstring := Document.Spelling.blanks hspace (.string stringSpelling_smiling_value)
    Document.blanks_nil
  have hswap (t u v w : List UInt8) : (([⟨"b", .array [.null], t, u⟩, ⟨"a", .string "😀/", v, w⟩] :
      List Document.Entry).map Document.Entry.member).Perm
        [("a", .string "😀/"), ("b", .array [.null])] := .swap _ _ _
  have hobject : smiling.Spelling _ := .blanks hspace
    (.object Document.blanks_nil _ (hswap _ _ _ _)
      (List.forall_mem_cons.mpr ⟨hb, List.forall_mem_singleton.mpr ha⟩)
      (List.forall_mem_cons.mpr ⟨harray, List.forall_mem_singleton.mpr hstring⟩))
    Document.blanks_nil
  exact Eq.subst (motive := smiling.Spelling) (by decide +kernel) hobject

/-- The condition `a == "😀/"`. -/
def smiles : Condition := ⟨⟨"a", [⟨some "a", []⟩]⟩, .equal, "😀/"⟩

/-- The written form and the other spelling have the same answer. -/
theorem evaluate_of_spellings_smiling :
    smiles.evaluate (Utf8.encode smiling.toChars) = smiles.evaluate smilingEscaped ∧
      ∀ e, smiles.evaluate (Utf8.encode smiling.toChars) ≠ .error (.unreadable e) := by
  have hreals : smiling.reals = [] := rfl
  exact evaluate_of_spellings smiles fits_smiling.legible
    (fits_smiling.spelling_toChars (hreals ▸ List.forall_mem_nil _)) spelling_smiling

end Condition

end JsonSieve
