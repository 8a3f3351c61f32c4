import JsonSieve.Proofs.Condition.Writing
import JsonSieve.Text.Utf8

/-!
# A condition that is printed and read again

A condition is printed with the path as it was written and with its literal bare
(`JsonSieve.Condition.render`). What is printed is read, with the same path, steps and
operator: no blank and no operator character of the literal gets before the operator,
because the path has none to lose, and a single blank keeps the literal away from the
operator. Only the literal is read anew, so it is trimmed and loses a pair of quotation
marks once more (`JsonSieve.Condition.parse_render`).

So the condition is the same again unless its literal has blanks at an end or is
enclosed in quotation marks itself (`JsonSieve.IsEnclosed`).
-/

namespace JsonSieve

/-! ### Literals that are read as they stand -/

/-- A string of at least two bytes that begins and ends with the same quotation
mark. -/
structure IsEnclosed (s : String) : Prop where
  /-- It has two bytes. -/
  two_le : 2 ≤ (Utf8.bytes s).length
  /-- The marks at its ends are equal. -/
  exists_quote : ∃ q, isQuote q = true ∧ s.toList.head? = some q ∧ s.toList.getLast? = some q

/-- A mark alone encloses nothing. -/
theorem isEnclosed_iff {s : String} :
    IsEnclosed s ↔ ∃ q r, isQuote q = true ∧ s.toList = q :: (r ++ [q]) := by
  have hbyte : ∀ {q}, isQuote q = true → (String.utf8EncodeChar q).length = 1 := by
    intro q hq
    rcases isQuote_iff.mp hq with rfl | rfl <;> decide
  constructor
  · rintro ⟨htwo, q, hq, hhead, hlast⟩
    obtain ⟨t, ht⟩ := List.head?_eq_some_iff.mp hhead
    rw [ht] at hlast
    rcases List.eq_nil_or_concat' t with rfl | ⟨r, x, rfl⟩
    · rw [Utf8.bytes, ht, Utf8.encode_cons, Utf8.encode_nil, List.append_nil, hbyte hq] at htwo
      omega
    · rw [← List.cons_append, List.getLast?_concat] at hlast
      obtain rfl := Option.some.inj hlast
      exact ⟨x, r, hq, ht⟩
  · rintro ⟨q, r, hq, hs⟩
    refine ⟨?_, q, hq, by rw [hs]; rfl, by rw [hs, ← List.cons_append, List.getLast?_concat]⟩
    rw [Utf8.bytes, hs, Utf8.encode_cons, Utf8.encode_append, Utf8.encode_cons, Utf8.encode_nil]
    simp only [List.length_append, hbyte hq, List.length_nil]
    omega

theorem unquote_sublist (t : List Char) : (unquote t).Sublist t := by
  cases t with
  | nil => exact List.Sublist.refl []
  | cons q r =>
    rw [unquote]
    split
    · exact (List.dropLast_sublist r).trans (List.sublist_cons_self q r)
    · exact List.Sublist.refl _

/-- Quotation marks are taken away exactly from what is enclosed in them. -/
theorem unquote_eq_self_iff {t : List Char} :
    unquote t = t ↔ ¬∃ q r, isQuote q = true ∧ t = q :: (r ++ [q]) := by
  constructor
  · rintro h ⟨q, r, hq, rfl⟩
    rw [Grammar.literal_iff.mp (.quoted r hq)] at h
    have hlength := congrArg List.length h
    simp only [List.length_cons, List.length_append, List.length_nil] at hlength
    omega
  · exact fun h => Grammar.literal_iff.mp (.bare fun q r hq ht => h ⟨q, r, hq, ht⟩)

/-- **The literals that are read as they stand.** -/
theorem unquote_trim_eq_self_iff {s : String} :
    unquote (Text.trim s.toList) = s.toList ↔ Text.IsTrimmed s.toList ∧ ¬IsEnclosed s := by
  rw [isEnclosed_iff, ← unquote_eq_self_iff]
  constructor
  · intro h
    -- neither reading makes a text longer, so that neither has changed it
    have hsub := unquote_sublist (Text.trim s.toList)
    rw [h] at hsub
    have htrim : Text.trim s.toList = s.toList := (Text.trim_sublist _).antisymm hsub
    rw [htrim] at h
    exact ⟨htrim ▸ Text.isTrimmed_trim _, h⟩
  · rintro ⟨htrim, h⟩
    rw [htrim.trim_eq, h]

/-! ### Reading again -/

open Grammar

namespace Condition

theorem parse_render_eq {s : String} {c : Condition} (h : parse s = .ok c) :
    parse c.render =
      .ok { c with value := String.ofList (unquote (Text.trim c.value.toList)) } := by
  obtain ⟨d, rfl⟩ := exists_derivation_of_ofChars h
  have hpath : Text.IsTrimmed d.steps.text := d.trim_before ▸ Text.isTrimmed_trim d.before
  have hread := ofChars_spaced d.steps hpath d.operator d.value
  rw [parse, render, String.toList_ofList, toChars, Derivation.condition]
  simpa only [d.trim_before, String.toList_ofList] using hread

/-- **A condition that is printed is read again**, with the same path, the same steps and
the same operator; its literal is trimmed and unquoted once more. So it is the same
condition exactly if its literal has blanks at neither end and is not enclosed in
quotation marks. -/
theorem parse_render {s : String} {c : Condition} (h : parse s = .ok c) :
    parse c.render =
        .ok { c with value := String.ofList (unquote (Text.trim c.value.toList)) } ∧
      (parse c.render = .ok c ↔ Text.IsTrimmed c.value.toList ∧ ¬IsEnclosed c.value) := by
  refine ⟨parse_render_eq h, ?_⟩
  rw [parse_render_eq h, ← unquote_trim_eq_self_iff]
  obtain ⟨path, operator, value⟩ := c
  constructor
  · intro heq
    have hvalue : String.ofList (unquote (Text.trim value.toList)) = value :=
      congrArg Condition.value (Except.ok.inj heq)
    exact (String.toList_ofList.symm.trans (congrArg String.toList hvalue))
  · intro heq
    dsimp only at heq ⊢
    rw [heq, String.ofList_toList]

/-- A condition whose literal is enclosed in quotation marks. -/
def enclosed : Condition :=
  ⟨⟨"'a.='[ 0 ].b", [⟨some "a.=", [0]⟩, ⟨some "b", []⟩]⟩, .equal, "'x' <= 1 '"⟩

/-- Of two pairs of quotation marks around a literal each reading takes one. -/
theorem parse_render_enclosed :
    parse "'a.='[ 0 ].b =\"'x' <= 1 '\"" = .ok enclosed ∧
      parse enclosed.render = .ok { enclosed with value := "x' <= 1 " } ∧
      parse enclosed.render ≠ .ok enclosed := by
  have hread : parse "'a.='[ 0 ].b =\"'x' <= 1 '\"" = .ok enclosed := by decide +kernel
  have hvalue : String.ofList (unquote (Text.trim enclosed.value.toList)) = "x' <= 1 " := by
    decide +kernel
  have henclosed : IsEnclosed enclosed.value :=
    isEnclosed_iff.mpr ⟨'\'', "x' <= 1 ".toList, by decide, by decide⟩
  obtain ⟨hagain, hsame⟩ := parse_render hread
  rw [hvalue] at hagain
  exact ⟨hread, hagain, fun h => (hsame.mp h).2 henclosed⟩

end Condition

end JsonSieve
