import JsonSieve.Proofs.Condition.Reading
import JsonSieve.Proofs.Condition.Regions

/-!
# What is wrong with a text that is no condition

A text is refused for its operator or for anything else, and which of the two it is depends
on the first operator character outside quoted regions alone
(`JsonSieve.HasUnknownOperator`). It does not matter what is wrong before that character,
since the path is read after the operator has been found; and nothing that is wrong with a
path is said to be wrong with an operator (`JsonSieve.blamesOperator_of_parseSegments`).
A region that is never closed hides all operators after it, and is reported as such.

All of this is `JsonSieve.parse_refusal`.
-/

namespace JsonSieve

open ScanState Grammar

/-! ### No path blames the operator -/

/-- What fails in two steps fails in one of them. -/
theorem bind_eq_error_iff {α β : Type} {first : Except ConditionError α}
    {second : α → Except ConditionError β} {e : ConditionError} :
    first >>= second = .error e ↔
      first = .error e ∨ ∃ a, first = .ok a ∧ second a = .error e := by
  cases first <;> simp [bind, Except.bind]

/-- What is wrong with a key is a quotation mark at its start that is never closed. -/
theorem error_of_splitKey {t : List Char} {e : ConditionError} (h : splitKey t = .error e) :
    ∃ q r, t = q :: r ∧ isQuote q = true ∧ q ∉ r ∧ e = .unterminatedQuote q := by
  unfold splitKey at h
  split at h
  · cases h
  · rename_i c r
    split at h
    · rename_i hq
      split at h
      · rename_i hcut
        cases h
        exact ⟨c, r, rfl, hq, not_mem_of_breakAt?_eq_none hcut, rfl⟩
      · cases h
    · cases h

/-- What is wrong with indices is a bracket or an index. -/
theorem error_of_splitIndices {t : List Char} {e : ConditionError}
    (h : splitIndices t = .error e) :
    e = .unterminatedBracket ∨ ∃ inner, e = .invalidIndex inner := by
  induction t using splitIndices.induct with
  | case1 =>
    rw [splitIndices] at h
    cases h
  | case2 body hb =>
    rw [splitIndices_bracket, hb] at h
    cases h
    exact Or.inl rfl
  | case3 body inner rest hb hi =>
    rw [splitIndices_bracket, hb] at h
    dsimp only at h
    rw [hi] at h
    cases h
    exact Or.inr ⟨_, rfl⟩
  | case4 body inner rest hb n hi ih =>
    rw [splitIndices_bracket, hb] at h
    dsimp only at h
    rw [hi] at h
    rcases bind_eq_error_iff.mp h with h | ⟨_, _, h⟩
    · exact ih h
    · cases h
  | case5 c body hc =>
    rw [splitIndices, if_neg hc] at h
    cases h

theorem error_of_segment {key : Option (List Char)} {indices : List Nat} {e : ConditionError}
    (h : Segment.ofParts key indices = .error e) : e = .emptySegment := by
  unfold Segment.ofParts at h
  split at h
  · cases h
    rfl
  · cases h

/-- What is wrong with a step: its key, its indices, that it has neither, or what is after
them. -/
theorem error_of_splitSegment {t : List Char} {e : ConditionError}
    (h : splitSegment t = .error e) :
    (∃ q r, Text.trimStart t = q :: r ∧ isQuote q = true ∧ q ∉ r ∧ e = .unterminatedQuote q) ∨
      e = .unterminatedBracket ∨ (∃ inner, e = .invalidIndex inner) ∨ e = .emptySegment ∨
      ∃ rest, e = .unexpected rest := by
  unfold splitSegment at h
  rcases bind_eq_error_iff.mp h with h | ⟨⟨key, rest⟩, -, h⟩
  · exact Or.inl (error_of_splitKey h)
  refine Or.inr ?_
  rcases bind_eq_error_iff.mp h with h | ⟨⟨indices, rest⟩, -, h⟩
  · rcases error_of_splitIndices h with rfl | hindex
    · exact Or.inl rfl
    · exact Or.inr (Or.inl hindex)
  refine Or.inr (Or.inr ?_)
  dsimp only at h
  split at h
  · rcases bind_eq_error_iff.mp h with h | ⟨segment, -, h⟩
    · exact Or.inl (error_of_segment h)
    · cases h
  · cases h
    exact Or.inr ⟨_, rfl⟩

theorem blamesOperator_of_splitSegment {t : List Char} {e : ConditionError}
    (h : splitSegment t = .error e) : e.blamesOperator = false := by
  rcases error_of_splitSegment h with
    ⟨_, _, -, -, -, rfl⟩ | rfl | ⟨_, rfl⟩ | rfl | ⟨_, rfl⟩ <;> rfl

/-- **Nothing that is wrong with a path is said to be wrong with an operator.** -/
theorem blamesOperator_of_parseSegments {t : List Char} {e : ConditionError}
    (h : parseSegments t = .error e) : e.blamesOperator = false := by
  induction t using parseSegments.induct generalizing e with
  | case1 t e' hs =>
    rw [parseSegments_of_error hs] at h
    cases h
    exact blamesOperator_of_splitSegment hs
  | case2 t segment hs =>
    rw [parseSegments_of_last hs] at h
    cases h
  | case3 t segment c next hs _ ih =>
    rw [parseSegments_of_point hs] at h
    rcases bind_eq_error_iff.mp h with h | ⟨_, _, h⟩
    · exact ih h
    · cases h

/-! ### Unknown operators -/

/-- An operator character begins an operator, unless it is an exclamation mark by itself. -/
theorem Operator.longest?_eq_none_iff {c : Char} (hc : isOperatorChar c = true) (r : List Char) :
    Operator.longest? (c :: r) = none ↔ c = '!' ∧ r.head? ≠ some '=' ∧ r.head? ≠ some '~' := by
  simp only [isOperatorChar, Bool.or_eq_true, beq_iff_eq] at hc
  rcases hc with (((rfl | rfl) | rfl) | rfl) | rfl <;> rcases r with _ | ⟨d, r⟩ <;>
    simp [longest?, all, chars]
  rw [eq_comm, @eq_comm _ '~']

theorem ofParts_eq_unknownOperator_iff {before rest : List Char} {token : String} :
    Condition.ofParts before rest = .error (.unknownOperator token) ↔
      Operator.longest? rest = none ∧ rest.takeWhile isOperatorChar = token.toList := by
  unfold Condition.ofParts
  cases hop : Operator.longest? rest with
  | none =>
    simp only [Except.error.injEq, ConditionError.unknownOperator.injEq, true_and]
    constructor
    · rintro rfl
      exact String.toList_ofList.symm
    · intro h
      rw [h, String.ofList_toList]
  | some op =>
    refine iff_of_false (fun h => ?_) (fun h => by cases h.1)
    dsimp only at h
    split at h
    · cases h
    · rcases bind_eq_error_iff.mp h with h | ⟨_, _, h⟩
      · have hblame := blamesOperator_of_parseSegments h
        cases hblame
      · cases h

/-! ### Where the scan stops -/

/-- **The scan stops** at the first operator character after closed regions, -/
theorem breakAtOperator_of_isClosed {before : List Char} (h : IsClosed before) {c : Char}
    (hc : isOperatorChar c = true) (r : List Char) :
    breakAtOperator start (before ++ c :: r) = (before, c :: r, start.run before) := by
  have hstop : (start.run before).atOperator c = true := by
    rw [atOperator_of_unquoted h.run, hc]
  rw [breakAtOperator_of_passes h.passes, breakAtOperator_of_atOperator hstop, List.append_nil]

/-- and nowhere else. -/
theorem isClosed_of_breakAtOperator {text before r : List Char} {c : Char} {state : ScanState}
    (h : breakAtOperator start text = (before, c :: r, state)) :
    IsClosed before ∧ isOperatorChar c = true := by
  have hpass := @passes_breakAtOperator start text
  have hstate := @breakAtOperator_state start text
  have hstop := @atOperator_of_breakAtOperator start text r c
  rw [h] at hpass hstate hstop
  dsimp only at hpass hstate hstop
  rcases isClosed_or_isUnclosed before hpass with hclosed | ⟨q, hopen⟩
  · refine ⟨hclosed, ?_⟩
    rw [← atOperator_of_unquoted hclosed.run, ← hstate]
    exact hstop rfl
  · -- no operator begins between quotation marks
    rw [hstate, hopen.run] at hstop
    cases hstop rfl

/-- A region that is never closed hides what is after it. -/
theorem breakAtOperator_of_isUnclosed {q : Char} {text : List Char} (h : IsUnclosed q text) :
    breakAtOperator start text = (text, [], quoted q) := by
  have hscan := breakAtOperator_of_passes h.passes []
  rwa [h.run, breakAtOperator_nil, List.append_nil] at hscan

/-! ### Why a text is refused -/

/-- **The operator of a text is unknown**: the first operator character outside quoted regions
is an exclamation mark that begins neither of the operators which begin so. What is reported
is the run of operator characters from there on. -/
def HasUnknownOperator (text token : List Char) : Prop :=
  ∃ before rest after : List Char, IsClosed before ∧ text = before ++ '!' :: rest ∧
    rest.head? ≠ some '=' ∧ rest.head? ≠ some '~' ∧ '!' :: rest = token ++ after ∧
    (∀ c ∈ token, isOperatorChar c = true) ∧ Stops isOperatorChar after

theorem HasUnknownOperator.mk {before rest : List Char} (hbefore : IsClosed before)
    (hequal : rest.head? ≠ some '=') (hlike : rest.head? ≠ some '~') :
    HasUnknownOperator (before ++ '!' :: rest) (('!' :: rest).takeWhile isOperatorChar) :=
  ⟨before, rest, ('!' :: rest).dropWhile isOperatorChar, hbefore, rfl, hequal, hlike,
    List.takeWhile_append_dropWhile.symm, fun _ hc => List.mem_takeWhile_imp hc,
    stops_dropWhile _⟩

/-- A text is refused for its operator exactly if that is unknown. -/
theorem ofChars_eq_unknownOperator_iff {t : List Char} {token : String} :
    Condition.ofChars t = .error (.unknownOperator token) ↔
      HasUnknownOperator (Text.trim t) token.toList := by
  constructor
  · intro h
    have happ := breakAtOperator_append start (Text.trim t)
    rcases hscan : breakAtOperator start (Text.trim t) with ⟨before, _ | ⟨c, rest⟩, state⟩
    · obtain ⟨e, he, hblame⟩ := ofChars_of_no_operator hscan
      rw [h] at he
      cases he
      cases hblame
    · obtain ⟨hbefore, hc⟩ := isClosed_of_breakAtOperator hscan
      rw [ofChars_of_operator hscan, ofParts_eq_unknownOperator_iff] at h
      obtain ⟨rfl, hequal, hlike⟩ := (Operator.longest?_eq_none_iff hc rest).mp h.1
      rw [hscan] at happ
      rw [← happ, ← h.2]
      exact .mk hbefore hequal hlike
  · rintro ⟨before, rest, after, hbefore, htext, hequal, hlike, hrun, htoken, hafter⟩
    have hscan := breakAtOperator_of_isClosed hbefore (c := '!') rfl rest
    rw [← htext] at hscan
    rw [ofChars_of_operator hscan, ofParts_eq_unknownOperator_iff]
    refine ⟨(Operator.longest?_eq_none_iff rfl rest).mpr ⟨rfl, hequal, hlike⟩, ?_⟩
    rw [hrun, takeWhile_append_of_stops htoken hafter]

/-- A text with a region that is never closed is refused for that. -/
theorem ofChars_of_isUnclosed {t : List Char} {q : Char} (h : IsUnclosed q (Text.trim t)) :
    Condition.ofChars t = .error (.unterminatedQuote q) := by
  have hne : (Text.trim t).isEmpty = false := by
    obtain ⟨ss, before, body, -, -, -, htext⟩ := h
    simp [htext]
  rw [Condition.ofChars, breakAtOperator_of_isUnclosed h]
  simp only [hne, Bool.false_eq_true, if_false]

/-- **Why a text is refused.** It is refused for its operator exactly if that is unknown, and
with the operator characters that stand there, whatever is wrong with the text before them.
Everything else that is refused is refused for the expression, and so are the texts with a
region that is never closed. -/
theorem parse_refusal (s : String) :
    (∀ token : String, Condition.parse s = .error (.unknownOperator token) ↔
      HasUnknownOperator (Text.trim s.toList) token.toList) ∧
    (∀ e : ConditionError, Condition.parse s = .error e →
      (e.blamesOperator = true ↔ ∃ token, HasUnknownOperator (Text.trim s.toList) token)) ∧
    ∀ q : Char, IsUnclosed q (Text.trim s.toList) →
      Condition.parse s = .error (.unterminatedQuote q) := by
  refine ⟨fun token => ofChars_eq_unknownOperator_iff, fun e he => ?_,
    fun q h => ofChars_of_isUnclosed h⟩
  constructor
  · intro hblame
    cases e with
    | unknownOperator token => exact ⟨token.toList, ofChars_eq_unknownOperator_iff.mp he⟩
    | _ => cases hblame
  · rintro ⟨token, h⟩
    rw [← String.toList_ofList (l := token), ← ofChars_eq_unknownOperator_iff] at h
    rw [Condition.parse, h] at he
    cases he
    rfl

/-- A closed region, an empty step and an index that is none, before an operator. -/
theorem isClosed_misshapen : IsClosed "'b!'..[x] ".toList := by
  refine ⟨[.quoted noBlanks '\'' "b!".toList [] rfl (by decide) (by decide),
    .plain noBlanks [] stops_nil stops_nil (by decide)], .plain noBlanks "[x] ".toList
    (stops_cons.mpr (by decide)) (stops_cons.mpr (by decide)) (by decide), ?_, ?_, rfl⟩
  · simp [Stretch.HasNoOperator, Stretch.outside, noBlanks]
  · have hchars : ("[x] ".toList.all fun c => !isOperatorChar c) = true := rfl
    exact fun c hc => by simpa using List.all_eq_true.mp hchars c hc

/-- An operator is refused before anything else is, and is not seen in an open region. -/
theorem parse_refused :
    Condition.parse "'b!'..[x] !<1" = .error (.unknownOperator "!<") ∧
      Condition.parse " a.'!<1 " = .error (.unterminatedQuote '\'') := by
  have hunknown : HasUnknownOperator (Text.trim "'b!'..[x] !<1".toList) "!<".toList :=
    ⟨_, "<1".toList, "1".toList, isClosed_misshapen, by decide, by decide, by decide, by decide,
      List.all_eq_true.mp rfl, stops_cons.mpr (by decide)⟩
  have hunclosed : IsUnclosed '\'' (Text.trim " a.'!<1 ".toList) := by
    refine ⟨[.plain noBlanks "a".toList (stops_cons.mpr (by decide)) (stops_cons.mpr (by decide))
      (by decide)], noBlanks, "!<1".toList, ?_, rfl, by decide, by decide⟩
    simp [Stretch.HasNoOperator, Stretch.outside, noBlanks]
    decide
  exact ⟨((parse_refusal _).1 "!<").mpr hunknown, (parse_refusal _).2.2 '\'' hunclosed⟩

end JsonSieve
