import JsonSieve.Proofs.Condition.Writing
import JsonSieve.Proofs.Evaluation.Coherence
import JsonSieve.Proofs.Number.Value

/-!
# A member compared with a number

The text `x < L`, with any operator in place of the second and any number literal in place
of the third word (`JsonSieve.Comparison.text`), is read as the condition that it says
(`JsonSieve.Comparison.parse_text`). Number literals are plain enough for that: there are no
blanks, no quotation marks and no operators in them.

A document whose member `x` is a number answers it from the places of two doubles on the
line (`JsonSieve.Comparison.answers_iff`): the one that the number is rounded to and the
one that the literal stands for.
-/

namespace JsonSieve

/-! ### The characters of literals -/

namespace NumberText

theorem IsNumberChar.isBlank_eq_false {c : Char} (h : IsNumberChar c) : Text.isBlank c = false := by
  rcases h with h | h
  · exact Text.isBlank_eq_false_of_isDigit h
  · revert h
    simp only [List.mem_cons, List.not_mem_nil, or_false]
    rintro (rfl | rfl | rfl | rfl | rfl) <;> decide

theorem IsNumberChar.isQuote_eq_false {c : Char} (h : IsNumberChar c) : isQuote c = false := by
  rcases h with h | h
  · rw [Bool.eq_false_iff]
    intro hq
    simp only [isQuote, Bool.or_eq_true, beq_iff_eq] at hq
    rcases hq with rfl | rfl <;> exact absurd h (by decide)
  · revert h
    simp only [List.mem_cons, List.not_mem_nil, or_false]
    rintro (rfl | rfl | rfl | rfl | rfl) <;> decide

/-- Nothing is taken off a number. -/
theorem unquote_trim_of_isNumberChar {t : List Char} (h : ∀ c ∈ t, IsNumberChar c) :
    unquote (Text.trim t) = t := by
  have htrim : Text.IsTrimmed t :=
    Text.isTrimmed_of_not_blank fun c hc => (h c hc).isBlank_eq_false
  rw [htrim.trim_eq]
  cases t with
  | nil => rfl
  | cons c r =>
    have hc : IsNumberChar c := h c List.mem_cons_self
    rw [unquote, if_neg (by simp [hc.isQuote_eq_false])]

end NumberText

namespace Comparison

/-! ### The condition -/

/-- The text that compares the member `x` with a literal. -/
def text (op : Operator) (literal : String) : String := "x " ++ op.token ++ " " ++ literal

/-- The condition that it says. -/
def condition (op : Operator) (literal : String) : Condition := ⟨memberX, op, literal⟩

theorem isBareKey_x : Grammar.IsBareKey ['x'] where
  ne_nil := List.cons_ne_nil _ _
  isTrimmed := ⟨stops_cons.mpr rfl, stops_cons.mpr rfl⟩
  head_not_quote := stops_cons.mpr rfl
  point_not_mem := by decide
  bracket_not_mem := by decide
  not_operator := List.forall_mem_singleton.mpr rfl

/-- The path to the member `x`. -/
def steps : Grammar.Steps :=
  .last ⟨Grammar.noBlanks, .bare ['x'] Grammar.noBlanks [] isBareKey_x fun _ => rfl,
    Grammar.noBlanks⟩

/-- **A number literal in a condition is read as it stands.** -/
theorem parse_text {literal : String} (h : ∀ c ∈ literal.toList, NumberText.IsNumberChar c)
    (op : Operator) : Condition.parse (text op literal) = .ok (condition op literal) := by
  have htext : (text op literal).toList =
      steps.text ++ ' ' :: (op.chars ++ ' ' :: literal.toList) := by
    simp [text, Operator.token, steps, Grammar.Steps.text, Grammar.Spaced.text,
      Grammar.Step.text, Grammar.noBlanks, String.toList_append, String.toList_ofList]
  have htrim : Text.IsTrimmed steps.text := isBareKey_x.isTrimmed
  rw [Condition.parse, htext, Grammar.ofChars_spaced steps htrim,
    NumberText.unquote_trim_of_isNumberChar h, String.ofList_toList]
  rfl

/-! ### The answer -/

/-- The answer of a document whose member is a number. -/
theorem satisfiedBy_condition {d : Document} {v : Document.Number}
    (hd : d.member? "x" = some (.number v)) {literal : String} {y : Binary64}
    (hy : Binary64.ofChars? literal.toList = some y) (op : Operator) :
    (condition op literal).satisfiedBy d =
      (condition op literal).answer .number (op.asksDoubles? v.toBinary64 y) := by
  have hfollow : (condition op literal).satisfiedBy d =
      (condition op literal).verdict (.number v) := by
    cases d with
    | object members =>
      have hstep : (⟨some "x", []⟩ : Segment).step? (.object members) = some (.number v) := by
        simp [Segment.step?, hd]
      rw [Condition.satisfiedBy, condition, memberX, Condition.follow]
      dsimp only
      rw [Document.anyElement, hstep]
      rfl
    | _ => cases hd
  have hliteral : Binary64.ofChars? (condition op literal).value.toList = some y := hy
  rw [hfollow, Condition.verdict_eq_judgement, Condition.judgement, hliteral]
  rfl

/-- **The answer to a comparison**: its text is read as a condition, and the document
satisfies it or not. -/
def Answers (op : Operator) (literal : String) (d : Document) (b : Bool) : Prop :=
  ∃ c, Condition.parse (text op literal) = .ok c ∧ c.satisfiedBy d = .ok b

/-- **A comparison of numbers is one of two places on the line.** -/
theorem answers_iff {d : Document} {v : Document.Number}
    (hd : d.member? "x" = some (.number v)) {literal : String}
    (hchars : ∀ c ∈ literal.toList, NumberText.IsNumberChar c) {y : Binary64}
    (hy : Binary64.ofChars? literal.toList = some y) {a b : Int}
    (ha : v.toBinary64.place? = some a) (hb : y.place? = some b) (op : Operator) (r : Bool) :
    Answers op literal d r ↔ op.asks? a b = some r := by
  have hasks : op.asksDoubles? v.toBinary64 y = op.asks? a b := by
    unfold Operator.asksDoubles?
    rw [ha, hb]
  have hanswer := satisfiedBy_condition hd hy op
  rw [hasks] at hanswer
  constructor
  · rintro ⟨c, hc, hr⟩
    obtain rfl : condition op literal = c := Except.ok.inj ((parse_text hchars op).symm.trans hc)
    rw [hanswer] at hr
    cases h : op.asks? a b with
    | none =>
      rw [h] at hr
      cases hr
    | some b' =>
      rw [h] at hr
      exact congrArg some (Except.ok.inj hr)
  · intro h
    refine ⟨_, parse_text hchars op, ?_⟩
    rw [hanswer, h]
    rfl

/-- The document that holds nothing but a number, as its member `x`. -/
def holding (v : Document.Number) : Document := .object [("x", .number v)]

theorem member?_holding (v : Document.Number) : (holding v).member? "x" = some (.number v) := rfl

end Comparison

end JsonSieve
