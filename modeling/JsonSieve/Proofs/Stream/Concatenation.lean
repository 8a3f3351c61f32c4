import JsonSieve.Proofs.Stream.Meaning

/-!
# Runs over inputs that follow each other

An input may be cut after any of its newlines, and a run over the whole is the run over the
first part followed by the run over the second (`JsonSieve.Sieve.run_eq_andThen`). Nothing
that a run keeps about its lines reaches the lines after the cut: the counts are added
up, the output is put together, and a run that was stopped stays stopped
(`JsonSieve.Outcome.andThen`).

One thing does depend on what came before, namely the number of the line in an error; so
the second run is numbered on from the number of newlines in the first part
(`JsonSieve.Outcome.renumber`). The two sides of the theorem are the two arguments below:
the table of a run over entries is a homomorphism (`JsonSieve.Sieve.meaningOf_append`), and
it does not look at the numbers of entries but passes them on
(`JsonSieve.Sieve.meaningOf_renumber`).
-/

namespace JsonSieve

/-! ### One outcome after another -/

/-- The error of a line, if `k` lines come before those that were counted. -/
def StreamError.renumber (k : Nat) : StreamError → StreamError
  | line number error => line (number + k) error
  | error => error

namespace Outcome

/-- The outcome of a run, if `k` lines come before its input. -/
def renumber (k : Nat) (outcome : Outcome) : Outcome :=
  ⟨outcome.result.mapError (StreamError.renumber k), outcome.output⟩

/-- **An outcome and then another one**: a run that was stopped stays stopped, and else the
counts are added up and the output is put together. -/
def andThen (first second : Outcome) : Outcome :=
  match first.result with
  | .error _ => first
  | .ok stats => second.after stats first.output

theorem after_andThen (stats : Stats) (output : Array UInt8) (first second : Outcome) :
    (first.after stats output).andThen second = (first.andThen second).after stats output := by
  rcases first with ⟨_ | counted, written⟩
  · rfl
  · exact (after_after stats counted output written second).symm

theorem renumber_after (k : Nat) (stats : Stats) (output : Array UInt8) (outcome : Outcome) :
    (outcome.after stats output).renumber k = (outcome.renumber k).after stats output := by
  rcases outcome with ⟨_ | counted, written⟩ <;> rfl

end Outcome

/-! ### Entries after others -/

namespace Stream

theorem entriesFrom_append (number : Nat) (lines more : List (List UInt8)) :
    entriesFrom number (lines ++ more) =
      entriesFrom number lines ++ entriesFrom (number + lines.length) more := by
  rw [entriesFrom, List.map_append, List.zipIdx_append, List.filterMap_append, List.length_map]
  rfl

/-- An entry with `k` more lines before it. -/
def Entry.renumber (k : Nat) (e : Entry) : Entry := ⟨e.content, e.number + k⟩

theorem entriesFrom_add (number k : Nat) (lines : List (List UInt8)) :
    entriesFrom (number + k) lines = (entriesFrom number lines).map (Entry.renumber k) := by
  induction lines generalizing number with
  | nil => rfl
  | cons line lines ih =>
    have hnext : number + k + 1 = (number + 1) + k := by omega
    by_cases hblank : isBlankLine (content line) = true
    · rw [entriesFrom_cons_blank hblank, entriesFrom_cons_blank hblank, hnext, ih]
    · rw [entriesFrom_cons hblank, entriesFrom_cons hblank, hnext, ih]
      rfl

end Stream

/-! ### The table is a homomorphism -/

namespace Sieve

variable (sieve : Sieve)

/-- **What entries mean is what the first of them mean and then the others.** -/
theorem meaningOf_append (es fs : List Stream.Entry) :
    sieve.meaningOf (es ++ fs) = (sieve.meaningOf es).andThen (sieve.meaningOf fs) := by
  induction es with
  | nil =>
    rw [List.nil_append, meaningOf_nil]
    exact (Outcome.after_zero _).symm
  | cons e es ih =>
    rw [List.cons_append]
    cases he : sieve.condition.evaluate e.content with
    | ok answer =>
      rw [meaningOf_cons_of_ok _ he, meaningOf_cons_of_ok _ he, ih, Outcome.after_andThen]
    | error error =>
      by_cases hskip : sieve.skipErrors = true
      · rw [meaningOf_cons_of_skip _ hskip he, meaningOf_cons_of_skip _ hskip he, ih,
          Outcome.after_andThen]
      · -- nothing comes after a line that stops the run
        rw [meaningOf_cons_of_stop _ hskip he, meaningOf_cons_of_stop _ hskip he]
        rfl

/-- **Numbers are passed on** to errors, and nothing else depends on them. -/
theorem meaningOf_renumber (k : Nat) (es : List Stream.Entry) :
    sieve.meaningOf (es.map (Stream.Entry.renumber k)) = (sieve.meaningOf es).renumber k := by
  induction es with
  | nil =>
    rw [List.map_nil, meaningOf_nil]
    rfl
  | cons e es ih =>
    rw [List.map_cons]
    cases he : sieve.condition.evaluate e.content with
    | ok answer =>
      have hk : sieve.condition.evaluate (e.renumber k).content = .ok answer := he
      rw [meaningOf_cons_of_ok _ hk, meaningOf_cons_of_ok _ he, ih, Outcome.renumber_after]
    | error error =>
      have hk : sieve.condition.evaluate (e.renumber k).content = .error error := he
      by_cases hskip : sieve.skipErrors = true
      · rw [meaningOf_cons_of_skip _ hskip hk, meaningOf_cons_of_skip _ hskip he, ih,
          Outcome.renumber_after]
      · rw [meaningOf_cons_of_stop _ hskip hk, meaningOf_cons_of_stop _ hskip he]
        rfl

/-- What an input means whose first part ends with a newline. -/
theorem meaning_append {input : List UInt8} (h : Stream.IsComplete input) (more : List UInt8) :
    sieve.meaning (input ++ more) =
      (sieve.meaning input).andThen
        ((sieve.meaning more).renumber (input.count Ascii.newline)) := by
  calc sieve.meaning (input ++ more)
      = sieve.meaningOf (Stream.entriesFrom 1
          (Stream.physicalLines input ++ Stream.physicalLines more)) := by
        rw [meaning, Stream.entries, Stream.physicalLines_append h]
    _ = (sieve.meaning input).andThen (sieve.meaningOf (Stream.entriesFrom
          (1 + input.count Ascii.newline) (Stream.physicalLines more))) := by
        rw [Stream.entriesFrom_append, meaningOf_append, Stream.length_physicalLines h]
        rfl
    _ = (sieve.meaning input).andThen
          ((sieve.meaning more).renumber (input.count Ascii.newline)) := by
        rw [Stream.entriesFrom_add, meaningOf_renumber]
        rfl

/-- **Runs are put together as their inputs are.** If an input is empty or ends with a
newline and another one follows it, in whatever pieces, the run over both is the run over
the first and then the run over the second, whose lines are numbered on from those of the
first. -/
theorem run_eq_andThen (first second both : List (List UInt8))
    (hboth : both.flatten = first.flatten ++ second.flatten)
    (hfirst : first.flatten = [] ∨ first.flatten.getLast? = some Ascii.newline) :
    sieve.run ⟨both, none⟩ .unlimited =
      (sieve.run ⟨first, none⟩ .unlimited).andThen
        ((sieve.run ⟨second, none⟩ .unlimited).renumber
          (first.flatten.count Ascii.newline)) := by
  rw [run_eq_meaning, run_eq_meaning, run_eq_meaning, hboth, sieve.meaning_append hfirst]

/-- A sieve that stops at a line without an answer. -/
def strict : Sieve := ⟨⟨⟨"x", [⟨some "x", []⟩]⟩, .equal, "1"⟩, false⟩

/-- A document that satisfies its condition, a blank line, and a document that does not. -/
def upperPart : List UInt8 := Utf8.bytes "\x7b\"x\":1\x7d\r\n \n\x7b\"x\":2\x7d\n"

/-- A document that does, and a last line that holds none. -/
def lowerPart : List UInt8 := Utf8.bytes "\n\x7b \"x\":1.0\x7d\n?"

/-- The last line is the third one by itself and the sixth one of the whole, which arrives
in pieces that are cut elsewhere. -/
theorem run_numbered_on :
    [upperPart.take 3, upperPart.drop 3 ++ lowerPart].flatten =
        [upperPart].flatten ++ [lowerPart].flatten ∧
      [upperPart].flatten.getLast? = some Ascii.newline ∧
      strict.run ⟨[lowerPart], none⟩ .unlimited =
        ⟨.error (.line 3 (.unreadable ⟨.expectedValue, 1, 1⟩)),
          (Utf8.bytes "\x7b\"x\":1.0\x7d\n").toArray⟩ ∧
      strict.run ⟨[upperPart.take 3, upperPart.drop 3 ++ lowerPart], none⟩ .unlimited =
        ⟨.error (.line 6 (.unreadable ⟨.expectedValue, 1, 1⟩)),
          (Utf8.bytes "\x7b\"x\":1\x7d\n\x7b\"x\":1.0\x7d\n").toArray⟩ := by
  have hboth : [upperPart.take 3, upperPart.drop 3 ++ lowerPart].flatten =
      [upperPart].flatten ++ [lowerPart].flatten := by decide +kernel
  have hlast : [upperPart].flatten.getLast? = some Ascii.newline := by decide +kernel
  have hupper : strict.run ⟨[upperPart], none⟩ .unlimited =
      ⟨.ok ⟨2, 1, 0⟩, (Utf8.bytes "\x7b\"x\":1\x7d\n").toArray⟩ := by decide +kernel
  have hlower : strict.run ⟨[lowerPart], none⟩ .unlimited =
      ⟨.error (.line 3 (.unreadable ⟨.expectedValue, 1, 1⟩)),
        (Utf8.bytes "\x7b\"x\":1.0\x7d\n").toArray⟩ := by decide +kernel
  refine ⟨hboth, hlast, hlower, ?_⟩
  have hcount : [upperPart].flatten.count Ascii.newline = 3 := by decide +kernel
  rw [strict.run_eq_andThen [upperPart] [lowerPart] _ hboth (Or.inr hlast), hupper, hlower, hcount]
  decide +kernel

end Sieve

end JsonSieve
