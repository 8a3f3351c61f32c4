import JsonSieve.Evaluation.Match
import JsonSieve.Proofs.Number.Agreement
import JsonSieve.Proofs.Number.Comparison

/-!
# A number against itself

The same text `L` of a number stands in the condition `x = L` and in the document with
the one member `x` and the value `L` (`JsonSieve.NumberText.equation`,
`JsonSieve.NumberText.document`). Both are read, and the document satisfies the condition
exactly if the two readers of numbers agree on `L`
(`JsonSieve.NumberText.evaluate_equation`). They do not always: `1e-23` is not equal to
itself (`JsonSieve.NumberText.not_matched_tiny`).
-/

namespace JsonSieve

namespace NumberText

variable (n : NumberText)

/-! ### The condition -/

/-- The condition that a member is equal to a number. -/
def equation : String := "x = " ++ String.ofList n.text

/-- The condition that is read. -/
def condition : Condition := ⟨⟨"x", [⟨some "x", []⟩]⟩, .equal, String.ofList n.text⟩

theorem parse_equation : Condition.parse n.equation = .ok n.condition := by
  have hequation : n.equation = Comparison.text .equal (String.ofList n.text) :=
    String.toList_injective (by
      simp [equation, Comparison.text, Operator.token, Operator.chars, String.toList_append,
        String.toList_ofList])
  rw [hequation]
  refine Comparison.parse_text (fun c hc => n.isNumberChar_text c ?_) .equal
  rwa [String.toList_ofList] at hc

/-! ### The document -/

/-- The document whose member is a number. -/
def document : List UInt8 := Utf8.bytes ("\x7b\"x\":" ++ String.ofList n.text ++ "\x7d")

theorem document_eq :
    n.document = Ascii.leftBrace :: Ascii.quote :: Ascii.byte 'x' :: Ascii.quote ::
      Ascii.colon :: (bytes n.text ++ [Ascii.rightBrace]) := by
  have htext : ("\x7b\"x\":" ++ String.ofList n.text ++ "\x7d").toList =
      ['\x7b', '"', 'x', '"', ':'] ++ (n.text ++ ['\x7d']) := by
    simp [String.toList_append, String.toList_ofList]
  rw [document, Utf8.bytes, htext, Utf8.encode_append, Utf8.encode_append, encode_text]
  rfl

theorem readString_x (r : List UInt8) :
    Document.readString (Ascii.byte 'x' :: Ascii.quote :: r) = .ok ("x", r) := by
  have hcontent : Document.readContent [] (Ascii.byte 'x' :: Ascii.quote :: r) =
      .ok ([Ascii.byte 'x'], r) := by
    rw [Document.readContent, if_neg (by decide), if_neg (by decide), if_neg (by decide),
      Document.readContent, if_pos rfl]
    rfl
  have hdecode : Utf8.decode [Ascii.byte 'x'] = (['x'], []) := by decide +kernel
  rw [Document.readString, hcontent]
  dsimp only
  rw [hdecode]

theorem endsNumber_rightBrace : EndsNumber [Ascii.rightBrace] :=
  ⟨stops_cons.mpr rfl, stops_cons.mpr rfl, stops_cons.mpr rfl⟩

/-- The reader comes to the value of the member. -/
theorem read_document :
    Document.read n.document =
      (Document.State.value [.object [] "x"]).run (bytes n.text ++ [Ascii.rightBrace]) := by
  have hkey : Document.State.step Ascii.quote (Ascii.byte 'x' :: Ascii.quote :: Ascii.colon ::
      (bytes n.text ++ [Ascii.rightBrace])) (.objectOpened []) =
        .ok (.afterKey [] "x" [], Ascii.colon :: (bytes n.text ++ [Ascii.rightBrace])) := by
    rw [Document.State.step, if_neg (by decide), Document.readKey, if_pos rfl, readString_x]
  rw [document_eq, Document.read, Document.State.run_of_step (skipBlanks_cons rfl _) rfl,
    Document.State.run_of_step (skipBlanks_cons rfl _) hkey,
    Document.State.run_of_step (skipBlanks_cons rfl _) rfl]

/-- **The document is read exactly if its number is in range.** -/
theorem parse_document_of_number? {v : Document.Number} (h : n.number? = some v) :
    Document.parse n.document = .ok (.object [("x", .number v)]) := by
  have hend : (Document.State.afterMember [("x", .number v)] []).run [Ascii.rightBrace] =
      .ok (.object [("x", .number v)]) := by
    refine (Document.State.run_of_step (skipBlanks_cons rfl []) rfl).trans ?_
    exact Document.State.run_of_end rfl
  have hread : Document.read n.document = .ok (.object [("x", .number v)]) := by
    rw [read_document, run_text h _ endsNumber_rightBrace]
    exact hend
  rw [Document.parse, hread]

/-- A document is not read if its number is out of range. -/
theorem isSome_number?_of_parse (h : (Document.parse n.document).isOk = true) :
    n.number?.isSome = true := by
  cases hv : n.number? with
  | some v => rfl
  | none =>
    obtain ⟨f, hf⟩ := run_text_of_none hv [.object [] "x"] endsNumber_rightBrace
    rw [Document.parse, read_document, hf] at h
    cases h

/-! ### The answer -/

/-- The member is compared with the literal. -/
theorem satisfiedBy_number (v : Document.Number) :
    n.condition.satisfiedBy (.object [("x", .number v)]) =
      .ok (v.toBinary64.compare? (.ofDecimal n.negative n.mantissa n.scale) = some .eq) := by
  have hfollow : n.condition.satisfiedBy (.object [("x", .number v)]) =
      n.condition.testNumber v := rfl
  have hvalue : n.condition.value.toList = n.text := String.toList_ofList
  rw [hfollow, Condition.testNumber, hvalue, ofChars?_text]
  rfl

/-- The answer for a number that is read. -/
theorem evaluate_document {v : Document.Number} (h : n.number? = some v) :
    n.condition.evaluate n.document = .ok ⟨.object [("x", .number v)], n.Agrees⟩ := by
  have hanswer : n.condition.satisfiedBy (.object [("x", .number v)]) = .ok (decide n.Agrees) := by
    rw [satisfiedBy_number]
    exact congrArg Except.ok (decide_eq_decide.mpr (n.compare?_number h))
  rw [Condition.evaluate, n.parse_document_of_number? h]
  dsimp only
  rw [hanswer]

/-- **A number against itself**: if `L` is read in a document, the condition is read, and
the document satisfies it exactly if the two readers agree on `L`, as they do if `L` is
short. -/
theorem evaluate_equation (h : (Document.parse n.document).isOk = true) :
    ∃ c answer, Condition.parse n.equation = .ok c ∧ c.evaluate n.document = .ok answer ∧
      (answer.matched = true ↔ n.Agrees) ∧ (n.IsShort → answer.matched = true) := by
  have hsome := n.isSome_number?_of_parse h
  obtain ⟨v, hv⟩ := Option.isSome_iff_exists.mp hsome
  refine ⟨n.condition, _, n.parse_equation, n.evaluate_document hv, decide_eq_true_iff, ?_⟩
  intro hshort
  exact decide_eq_true (n.agrees_of_isShort hshort hsome)

/-- The number `25.05`. -/
def hundredths : NumberText where
  negative := false
  whole := ⟨['2', '5'], List.all_eq_true.mp rfl⟩
  fraction := ⟨['0', '5'], List.all_eq_true.mp rfl⟩
  exponent := none
  whole_ne_nil := by decide
  leading_zero := by decide

/-- The number `25.05` is short, and so it is equal to itself. -/
theorem matched_hundredths :
    (Document.parse hundredths.document).isOk = true ∧
      ∃ c answer, Condition.parse hundredths.equation = .ok c ∧
        c.evaluate hundredths.document = .ok answer ∧ answer.matched = true := by
  have hread : (Document.parse hundredths.document).isOk = true := by decide +kernel
  obtain ⟨c, answer, hc, hanswer, -, hshort⟩ := hundredths.evaluate_equation hread
  exact ⟨hread, c, answer, hc, hanswer, hshort (by decide +kernel)⟩

/-- The number `1e-23`. -/
def tiny : NumberText where
  negative := false
  whole := ⟨['1'], List.all_eq_true.mp rfl⟩
  fraction := ⟨[], List.all_eq_true.mp rfl⟩
  exponent := some
    ⟨'e', ['-'], ⟨['2', '3'], List.all_eq_true.mp rfl⟩, by decide, by decide, by decide⟩
  whole_ne_nil := by decide
  leading_zero := by decide

/-- **Not every number is equal to itself**: the division by `10 ^ 23`, which is not a
double, leads from `1` to a neighbour of the nearest double. -/
theorem not_matched_tiny :
    ∃ c answer, Condition.parse "x = 1e-23" = .ok c ∧
      c.evaluate (Utf8.bytes "\x7b\"x\":1e-23\x7d") = .ok answer ∧ answer.matched = false := by
  have hequation : tiny.equation = "x = 1e-23" := by decide +kernel
  have hdocument : tiny.document = Utf8.bytes "\x7b\"x\":1e-23\x7d" := by decide +kernel
  have hread : tiny.number?.isSome = true := by decide +kernel
  obtain ⟨v, hv⟩ := Option.isSome_iff_exists.mp hread
  rw [← hequation, ← hdocument]
  refine ⟨tiny.condition, _, tiny.parse_equation, tiny.evaluate_document hv, ?_⟩
  have hagrees : ¬tiny.Agrees := by decide +kernel
  exact decide_eq_false hagrees

end NumberText

end JsonSieve
