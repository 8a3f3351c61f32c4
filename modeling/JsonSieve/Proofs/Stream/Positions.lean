import JsonSieve.Proofs.Document.Places
import JsonSieve.Proofs.Evaluation.Spellings
import JsonSieve.Proofs.Stream.Framing

/-!
# Where a line cannot be read

A run that is stopped by a line which is no document says so with two places: the number of
the line in the stream, and a line and a column of the document. The second place does not
depend on what has come before in the stream. It always is in line 1, since the content of a
line holds no newline (`JsonSieve.Stream.newline_not_mem_content`), and the column is one of
the content (`JsonSieve.Sieve.run_unreadable`).

So a column can be looked up in the line with the number, of which at most the line ending
lies beyond it.
-/

namespace JsonSieve

namespace Stream

/-! ### The line of an entry -/

/-- **No content holds a newline.** -/
theorem newline_not_mem_content {input line : List UInt8} (h : line ∈ physicalLines input) :
    Ascii.newline ∉ content line := by
  have hdrop {part : List UInt8} (hnl : Ascii.newline ∉ part) :
      Ascii.newline ∉ dropEnd Ascii.carriageReturn part :=
    fun hmem => hnl ((dropEnd_sublist _ _).subset hmem)
  induction input using lines_induction with
  | nil => cases h
  | last part hne hnl =>
    rw [physicalLines_of_not_mem hne hnl, List.mem_singleton] at h
    rw [h, content_of_not_mem hnl]
    exact hdrop hnl
  | cons part rest hnl ih =>
    rw [physicalLines_append_newline hnl, List.mem_cons] at h
    rcases h with rfl | h
    · rw [content_append_newline]
      exact hdrop hnl
    · exact ih h

/-- **An entry is the content of a line** that is not blank, and has the number of that. -/
theorem exists_line_of_mem_entriesFrom {number : Nat} {lines : List (List UInt8)} {e : Entry}
    (h : e ∈ entriesFrom number lines) :
    ∃ before line after, lines = before ++ line :: after ∧ e.number = number + before.length ∧
      e.content = content line ∧ ¬isBlankLine (content line) = true := by
  induction lines generalizing number with
  | nil => cases h
  | cons line lines ih =>
    -- what is among the lines after the first one has one more line before it
    have hlater (h : e ∈ entriesFrom (number + 1) lines) :
        ∃ before line' after, line :: lines = before ++ line' :: after ∧
          e.number = number + before.length ∧ e.content = content line' ∧
          ¬isBlankLine (content line') = true := by
      obtain ⟨before, line', after, rfl, hnumber, hcontent⟩ := ih h
      refine ⟨line :: before, line', after, rfl, ?_, hcontent⟩
      rw [hnumber, List.length_cons]
      omega
    by_cases hblank : isBlankLine (content line) = true
    · rw [entriesFrom_cons_blank hblank] at h
      exact hlater h
    · rw [entriesFrom_cons hblank, List.mem_cons] at h
      rcases h with rfl | h
      · exact ⟨[], line, lines, rfl, rfl, rfl, hblank⟩
      · exact hlater h

theorem Entry.evaluate_of_fault? {c : Condition} {e : Entry} {number : Nat}
    {error : EvaluationError} (h : e.fault? c = some (.line number error)) :
    e.number = number ∧ c.evaluate e.content = .error error := by
  unfold fault? at h
  split at h
  · cases h
  · rename_i hevaluate
    cases h
    exact ⟨rfl, hevaluate⟩

end Stream

/-! ### The wording -/

/-- What is said of a document that cannot be read, if that shows in its first line. -/
theorem EvaluationError.message_unreadable (cause : Document.Cause) (column : Nat) :
    (unreadable ⟨cause, ⟨1, column⟩⟩).message =
      s!"parse json error: {cause.message} at line 1 column {column}" := by
  have hone : toString 1 = "1" := rfl
  have hline : " at line " ++ ("1" ++ " column ") = " at line 1 column " := by simp
  calc
    "parse json error: " ++ (cause.message ++ " at line " ++ toString 1 ++ " column " ++
        toString column)
      = "parse json error: " ++ cause.message ++ (" at line " ++ ("1" ++ " column ")) ++
        toString column := by
      rw [hone]
      simp only [String.append_assoc]
    _ = "parse json error: " ++ cause.message ++ " at line 1 column " ++ toString column := by
      rw [hline]

namespace Sieve

variable (sieve : Sieve)

/-- **A document that cannot be read fails inside its line.** If a run is stopped by a line that
is no document, then the line with the number that it says is one that is not read. It fails
in line 1, whatever came before in the stream, and in a column of the line without its ending;
that is what is said of it, after the cause. -/
theorem run_unreadable (pieces : List (List UInt8)) {number : Nat} {e : Document.ReadError}
    (h : (sieve.run ⟨pieces, none⟩ .unlimited).result = .error (.line number (.unreadable e))) :
    ∃ before line after, Stream.physicalLines pieces.flatten = before ++ line :: after ∧
      number = before.length + 1 ∧ Document.parse (Stream.content line) = .error e ∧
      ∃ column, e.position = ⟨1, column⟩ ∧
        1 ≤ column ∧ column ≤ (Stream.content line).length ∧
        (EvaluationError.unreadable e).message =
          s!"parse json error: {e.cause.message} at line 1 column {column}" := by
  rw [run_eq_meaning] at h
  obtain ⟨entry, hmem, hfault⟩ := exists_fault_of_meaningOf _ h
  obtain ⟨rfl, hevaluate⟩ := Stream.Entry.evaluate_of_fault? hfault
  obtain ⟨before, line, after, hlines, hnumber, hcontent, hblank⟩ :=
    Stream.exists_line_of_mem_entriesFrom hmem
  rw [Condition.evaluate_eq_unreadable_iff, hcontent] at hevaluate
  have hline : line ∈ Stream.physicalLines pieces.flatten := by simp [hlines]
  have hne : Stream.content line ≠ [] := by
    intro hnil
    rw [hnil] at hblank
    exact hblank rfl
  obtain ⟨column, hposition, hpos, hle⟩ :=
    Document.parse_position hevaluate hne (Stream.newline_not_mem_content hline)
  refine ⟨before, line, after, hlines, by omega, hevaluate, column, hposition, hpos, hle, ?_⟩
  obtain ⟨cause, position⟩ := e
  obtain rfl : position = ⟨1, column⟩ := hposition
  exact EvaluationError.message_unreadable cause column

/-- A blank line, a document, and an array of a string with two bytes that are not UTF-8 after a
character of two bytes. -/
def misspelt : List UInt8 :=
  Utf8.bytes "\n\x7b\"x\":1\x7d\n[\"é" ++ ([0xFF, 0xFF] ++ Utf8.bytes "\"]\r\n")

open Document (Cause) in
/-- The third line fails after its closing quotation mark, and is moved back to the first of the
two bytes. -/
theorem run_unreadable_misspelt :
    (strict.run ⟨[misspelt], none⟩ .unlimited).result =
        .error (.line 3 (.unreadable ⟨.invalidCodePoint, 1, 5⟩)) ∧
      ∃ before line after, Stream.physicalLines [misspelt].flatten = before ++ line :: after ∧
        3 = before.length + 1 ∧
        Document.parse (Stream.content line) = .error ⟨.invalidCodePoint, 1, 5⟩ ∧
        ∃ column, (⟨1, 5⟩ : Document.Position) = ⟨1, column⟩ ∧
          1 ≤ column ∧ column ≤ (Stream.content line).length ∧
          (EvaluationError.unreadable ⟨.invalidCodePoint, 1, 5⟩).message =
            s!"parse json error: {Cause.invalidCodePoint.message} at line 1 column {column}" := by
  have hrun : (strict.run ⟨[misspelt], none⟩ .unlimited).result =
      .error (.line 3 (.unreadable ⟨.invalidCodePoint, 1, 5⟩)) := by decide +kernel
  exact ⟨hrun, strict.run_unreadable [misspelt] hrun⟩

end Sieve

end JsonSieve
