import Mathlib
import JsonSieve.CommandLine.Run
import JsonSieve.Proofs.CommandLine.Calls
import JsonSieve.Proofs.Stream.Relay

/-!
# The program is the run

A call of the program (`JsonSieve.CommandLine.Call`) reads its condition first. If that fails
it ends there, whatever else it was given. Otherwise what it leaves behind is what the run of
the sieve leaves (`JsonSieve.CommandLine.runPieces_call`): all of the output goes to standard
output, also of a run that was stopped, and then the report goes to standard error.

Three things are between the run and what is seen of it. The value of the variable is a text,
and two texts ask for skipping, one of them with letters of either size
(`JsonSieve.CommandLine.asksToSkip_iff`). Output is held back on its way, and comes out
(`JsonSieve.Sieve.relayAll_eq_run`). And an error is laid out: a report of texts that are single
lines has a line for each of them (`JsonSieve.CommandLine.report_chain`).
-/

namespace JsonSieve

namespace CommandLine

/-! ### The variable -/

/-- **Whether a value asks for skipping**: it is `1`, or `true` with letters of either size. -/
def AsksToSkip (value : String) : Prop :=
  value = "1" ∨ List.Forall₂ (fun c d => c = d ∨ c = d.toUpper) value.toList "true".toList

/-- What is small when it is made small is a small letter or its large form. -/
theorem toLower_eq_iff {c d : Char} (hd : d.isLower = true) :
    c.toLower = d ↔ c = d ∨ c = d.toUpper := by
  have hsmall : d.toLower = d := Char.toLower_eq_of_not_isUpper (Char.not_isUpper_of_isLower hd)
  constructor
  · rintro rfl
    by_cases hc : c.isUpper = true
    · have hlarge : c.toUpper = c := Char.toUpper_eq_of_not_isLower (Char.not_isLower_of_isUpper hc)
      rw [Char.toUpper_toLower_eq_toUpper, hlarge]
      exact Or.inr rfl
    · exact Or.inl (Char.toLower_eq_of_not_isUpper hc).symm
  · rintro (rfl | rfl)
    · exact hsmall
    · rw [Char.toLower_toUpper_eq_toLower, hsmall]

theorem map_toLower_eq_iff {letters : List Char} (h : ∀ d ∈ letters, d.isLower = true)
    (text : List Char) :
    text.map Char.toLower = letters ↔
      List.Forall₂ (fun c d => c = d ∨ c = d.toUpper) text letters := by
  induction letters generalizing text with
  | nil => simp
  | cons d letters ih =>
    cases text with
    | nil => simp
    | cons c text =>
      rw [List.map_cons, List.cons.injEq, List.forall₂_cons,
        toLower_eq_iff (h d List.mem_cons_self), ih fun d hd => h d (List.mem_cons_of_mem _ hd)]

theorem asksToSkip_iff (value : String) : asksToSkip value = true ↔ AsksToSkip value := by
  rw [AsksToSkip, ← map_toLower_eq_iff (List.all_eq_true.mp rfl)]
  simp [asksToSkip]

instance : DecidablePred AsksToSkip := fun value => decidable_of_iff _ (asksToSkip_iff value)

/-! ### Reports -/

/-- A text that is a single line. -/
def IsOneLine (text : String) : Prop := '\n' ∉ text.toList

instance : DecidablePred IsOneLine := fun text => inferInstanceAs (Decidable ('\n' ∉ text.toList))

/-- The report of one cause. -/
def causeReport (headline cause : String) : String :=
  "Error: " ++ headline ++ "\n\nCaused by:\n    " ++ cause ++ "\n"

/-- **The report of a chain of causes**: a line for each of them, with its number. -/
def chainReport (headline : String) (causes : List String) : String :=
  "Error: " ++ headline ++ "\n\nCaused by:" ++
    String.join (causes.mapIdx fun number cause => "\n    " ++ toString number ++ ": " ++ cause) ++
    "\n"

theorem hang_of_isOneLine {text : String} (h : IsOneLine text) (margin : List Char) :
    hang margin text.toList = text.toList := by
  have hline : ∀ c ∈ text.toList, (if c = '\n' then '\n' :: margin else [c]) = [c] :=
    fun c hc => if_neg (ne_of_mem_of_not_mem hc h)
  calc hang margin text.toList
      = text.toList.flatMap fun c => [c] := by
        rw [hang, List.flatMap_def, List.flatMap_def, List.map_congr_left hline]
    _ = text.toList := List.flatMap_singleton' _

theorem report_cause (headline : String) {cause : String} (h : IsOneLine cause) :
    report headline [cause] = causeReport headline cause := by
  apply String.toList_inj.mp
  simp [report, causeReport, causeList, loneCause, hang_of_isOneLine h, List.replicate]

/-- Numbers of one digit leave four columns. -/
theorem numberedCause_of_isOneLine {cause : String} (h : IsOneLine cause) {number : Nat}
    (hnumber : number < 10) :
    '\n' :: numberedCause cause number = ("\n    " ++ toString number ++ ": " ++ cause).toList := by
  simp [numberedCause, hang_of_isOneLine h, Nat.toDigits_of_lt_base hnumber, List.replicate]

theorem report_chain (headline : String) {causes : List String} (hmany : 2 ≤ causes.length)
    (hfew : causes.length ≤ 10) (h : ∀ cause ∈ causes, IsOneLine cause) :
    report headline causes = chainReport headline causes := by
  have hlines : (causes.mapIdx fun number cause => '\n' :: numberedCause cause number) =
      (causes.mapIdx fun number cause => "\n    " ++ toString number ++ ": " ++ cause).map
        String.toList := by
    refine List.ext_getElem (by simp) fun number hnumber _ => ?_
    rw [List.length_mapIdx] at hnumber
    simp only [List.getElem_map, List.getElem_mapIdx]
    exact numberedCause_of_isOneLine (h _ (List.getElem_mem hnumber)) (by omega)
  -- a report of one cause would have no number
  have hlist : causeList causes =
      (causes.mapIdx fun number cause => '\n' :: numberedCause cause number).flatten := by
    unfold causeList
    split
    · simp at hmany
    · rfl
  have hnonempty : ¬causes.isEmpty = true := by
    rw [List.isEmpty_iff]
    rintro rfl
    simp at hmany
  apply String.toList_inj.mp
  rw [report, if_neg hnonempty, hlist, hlines, chainReport]
  simp only [String.toList_append, String.toList_ofList, String.toList_join, List.flatMap_def]

/-- The texts of the error of a line and of the errors below it. -/
def lineTexts (number : Nat) (error : EvaluationError) : List String :=
  s!"process line {number} error: {error.message}" :: error.message ::
    match error with
    | .unreadable error => [error.message]
    | _ => []

theorem streamReport_line (number : Nat) (error : EvaluationError)
    (h : ∀ text ∈ lineTexts number error, IsOneLine text) :
    streamReport (.line number error) = chainReport "filter error" (lineTexts number error) := by
  have htexts : (StreamError.line number error).message :: (StreamError.line number error).sources =
      lineTexts number error := by
    cases error <;> rfl
  rw [streamReport, htexts]
  exact report_chain _ (by simp [lineTexts]) (by cases error <;> simp [lineTexts]) h

/-! ### Whole runs -/

/-- **The program is the run.** For every call, every value of the variable and every input in
whatever pieces: if the condition cannot be read, the program ends with 1, its output is empty
and its report is that of one cause, the same for every input, flag and value. Otherwise lines
without an answer are skipped if the flag or the variable says so, and the program ends with 0
and the output of the run if that succeeds. A run fails because of a line; then the program ends
with 1, all that the run wrote is in its output, and its report is that of the error of the line
and of all errors below it. -/
theorem runPieces_call (call : Call) (variableValue : Option String)
    (pieces : List (List UInt8)) :
    match Condition.parse call.condition with
    | .error e =>
      runPieces call.arguments variableValue pieces = ⟨1, [], conditionReport e⟩ ∧
        (IsOneLine e.message → conditionReport e = causeReport "parse filter error" e.message)
    | .ok c =>
      ∃ skip : Bool,
        (skip = true ↔ call.skips = true ∨ ∃ value, variableValue = some value ∧ AsksToSkip value) ∧
        match Sieve.run ⟨c, skip⟩ (.ofBytes pieces.flatten) .unlimited with
        | ⟨.ok _, output⟩ =>
          runPieces call.arguments variableValue pieces = ⟨0, output.toList, ""⟩
        | ⟨.error e, output⟩ =>
          runPieces call.arguments variableValue pieces = ⟨1, output.toList, streamReport e⟩ ∧
            ∃ number error, e = .line number error ∧
              ((∀ text ∈ lineTexts number error, IsOneLine text) →
                streamReport e = chainReport "filter error" (lineTexts number error)) := by
  have hrequest : Request.ofArguments call.arguments = .filter call.condition call.skips :=
    (ofArguments_eq_filter_iff _ _ _).mpr ⟨call, rfl, rfl, rfl⟩
  cases hparse : Condition.parse call.condition with
  | error e =>
    refine ⟨?_, report_cause _⟩
    simp only [runPieces, hrequest, sieve, hparse]
  | ok c =>
    have hskip : (call.skips || variableValue.any asksToSkip) = true ↔
        call.skips = true ∨ ∃ value, variableValue = some value ∧ AsksToSkip value := by
      simp [asksToSkip_iff, Option.any_eq_true]
    generalize hsieve : (call.skips || variableValue.any asksToSkip) = skip at hskip
    have hexit : runPieces call.arguments variableValue pieces =
        .ofOutcome (Sieve.run ⟨c, skip⟩ (.ofBytes pieces.flatten) .unlimited) := by
      simp only [runPieces, hrequest, CommandLine.sieve, hparse, hsieve, Sieve.relayAll_eq_run]
    refine ⟨skip, hskip, ?_⟩
    rcases hrun : Sieve.run ⟨c, skip⟩ (.ofBytes pieces.flatten) .unlimited with ⟨e | stats, output⟩
    · refine ⟨by rw [hexit, hrun]; rfl, ?_⟩
      -- with a source and a sink that do not fail only a line stops the run
      have hmeaning : (Sieve.meaning ⟨c, skip⟩ [pieces.flatten].flatten).result = .error e := by
        rw [← Sieve.run_eq_meaning]
        exact congrArg Outcome.result hrun
      obtain ⟨number, error, rfl⟩ := Sieve.exists_line_of_meaningOf _ hmeaning
      exact ⟨number, error, rfl, streamReport_line number error⟩
    · rw [hexit, hrun]
      rfl

/-- A call with an attached condition and with the mark, but without the flag. -/
def attachedCall : Call where
  items := [.condition .shortAttached "x=1" ⟨by decide, by decide⟩]
  marked := true
  condition := "x=1"
  skips := false
  condition_once := rfl
  flag_once := rfl

/-- A document that satisfies the condition, and a line that holds none. -/
def halfGood : List UInt8 := Utf8.bytes "\x7b\"x\":1\x7d\n?\n"

/-- What is said about its second line. -/
def halfGoodReport : String :=
  "Error: filter error\n\nCaused by:\n" ++
    "    0: process line 2 error: parse json error: expected value at line 1 column 1\n" ++
    "    1: parse json error: expected value at line 1 column 1\n" ++
    "    2: expected value at line 1 column 1\n"

/-- A value of the variable that asks for nothing leaves the run strict, and the copy that was
written before the second line comes out although the run is stopped there. -/
theorem runPieces_attachedCall :
    attachedCall.arguments = ["filter", "-cx=1", "--"] ∧
      runPieces attachedCall.arguments (some "yes") [halfGood.take 3, halfGood.drop 3] =
        ⟨1, Utf8.bytes "\x7b\"x\":1\x7d\n", halfGoodReport⟩ := by
  have h := runPieces_call attachedCall (some "yes") [halfGood.take 3, halfGood.drop 3]
  have hparse : Condition.parse attachedCall.condition =
      .ok ⟨⟨"x", [⟨some "x", []⟩]⟩, .equal, "1"⟩ := by decide +kernel
  rw [hparse] at h
  obtain ⟨skip, hskip, h⟩ := h
  have hstrict : skip = false := by
    rw [Bool.eq_false_iff, ne_eq, hskip]
    rintro (hflag | ⟨value, hvalue, hasks⟩)
    · cases hflag
    · cases hvalue
      exact absurd hasks (by decide)
  subst hstrict
  have hrun : Sieve.run ⟨⟨⟨"x", [⟨some "x", []⟩]⟩, .equal, "1"⟩, false⟩
      (.ofBytes [halfGood.take 3, halfGood.drop 3].flatten) .unlimited =
        ⟨.error (.line 2 (.unreadable ⟨.expectedValue, 1, 1⟩)),
          (Utf8.bytes "\x7b\"x\":1\x7d\n").toArray⟩ := by decide +kernel
  rw [hrun] at h
  obtain ⟨hexit, number, error, herror, hreport⟩ := h
  cases herror
  have hchain : chainReport "filter error" (lineTexts 2 (.unreadable ⟨.expectedValue, 1, 1⟩)) =
      halfGoodReport := by decide +kernel
  rw [hreport (by decide +kernel), hchain] at hexit
  exact ⟨by decide, hexit⟩

end CommandLine

end JsonSieve
