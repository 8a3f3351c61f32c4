import JsonSieve.Proofs.Stream.Meaning

/-!
# Skipping is deleting

A sieve may skip lines without an answer or stop at them. The two are compared here on
one input, in two ways.

* If such lines are deleted from the input beforehand (`JsonSieve.Stream.answered`), a
  sieve that stops at them never does, and it counts and writes what the sieve that skips
  them does on the whole input.
* On the whole input a sieve that stops at such lines either meets none, and then the two
  runs are the same, or it has written a first part of what the other one writes.

`JsonSieve.Sieve.run_skipping` says both. Blank lines are neither answered nor skipped, so
the first comparison holds whether they are deleted or not. Deleting lines renumbers those
that come after them, which is why the induction (`JsonSieve.Sieve.meaningOf_isKept`) is
about entries that are numbered from anywhere on either side.
-/

namespace JsonSieve

namespace Stream

/-! ### Lines that are deleted -/

/-- Whether a line stays when those without an answer are deleted, and blank ones stay or
not. -/
def isKept (c : Condition) (keepBlanks : Bool) (line : List UInt8) : Bool :=
  if isBlankLine (content line) then keepBlanks else (c.evaluate (content line)).isOk

/-- **An input without the lines that have no answer.** -/
def answered (c : Condition) (keepBlanks : Bool) (input : List UInt8) : List UInt8 :=
  ((physicalLines input).filter (isKept c keepBlanks)).flatten

/-- A blank line leaves no entry, whether it stays or not. -/
theorem entriesFrom_filter_cons_blank (c : Condition) (keepBlanks : Bool) {line : List UInt8}
    (h : isBlankLine (content line) = true) (number : Nat) (lines : List (List UInt8)) :
    ∃ number', entriesFrom number ((line :: lines).filter (isKept c keepBlanks)) =
      entriesFrom number' (lines.filter (isKept c keepBlanks)) := by
  cases hkept : isKept c keepBlanks line with
  | true =>
    rw [List.filter_cons_of_pos hkept, entriesFrom_cons_blank h]
    exact ⟨number + 1, rfl⟩
  | false =>
    rw [List.filter_cons_of_neg (by simp [hkept])]
    exact ⟨number, rfl⟩

end Stream

namespace Sieve

variable (c : Condition)

/-! ### Deleting lines -/

/-- **What is left of the lines means what all of them mean** to a sieve that skips those
that are gone, except that it has skipped them. -/
theorem meaningOf_isKept (keepBlanks : Bool) (lines : List (List UInt8)) (number number' : Nat) :
    ∃ read matched skipped output,
      meaningOf ⟨c, true⟩ (Stream.entriesFrom number lines) =
          ⟨.ok ⟨read + skipped, matched, skipped⟩, output⟩ ∧
        meaningOf ⟨c, false⟩
            (Stream.entriesFrom number' (lines.filter (Stream.isKept c keepBlanks))) =
          ⟨.ok ⟨read, matched, 0⟩, output⟩ := by
  induction lines generalizing number number' with
  | nil => exact ⟨0, 0, 0, #[], meaningOf_nil, meaningOf_nil⟩
  | cons line lines ih =>
    by_cases hblank : Stream.isBlankLine (Stream.content line) = true
    · obtain ⟨number', hrest⟩ :=
        Stream.entriesFrom_filter_cons_blank c keepBlanks hblank number' lines
      rw [Stream.entriesFrom_cons_blank hblank, hrest]
      exact ih (number + 1) number'
    rw [Stream.entriesFrom_cons hblank]
    cases he : c.evaluate (Stream.content line) with
    | ok answer =>
      have hkept : Stream.isKept c keepBlanks line = true := by
        rw [Stream.isKept, if_neg hblank, he]
        rfl
      obtain ⟨read, matched, skipped, output, hall, hleft⟩ := ih (number + 1) (number' + 1)
      -- the line is counted, and copied or not, on either side
      rw [List.filter_cons_of_pos hkept, Stream.entriesFrom_cons hblank,
        meaningOf_cons_of_ok _ he, meaningOf_cons_of_ok _ he, hall, hleft]
      simp only [Outcome.after, Except.map, Stats.add, Nat.zero_add, ← Nat.add_assoc]
      exact ⟨1 + read, _, skipped, _, rfl, rfl⟩
    | error error =>
      have hgone : ¬Stream.isKept c keepBlanks line = true := by
        rw [Stream.isKept, if_neg hblank, he]
        exact Bool.false_ne_true
      obtain ⟨read, matched, skipped, output, hall, hleft⟩ := ih (number + 1) number'
      rw [List.filter_cons_of_neg hgone, meaningOf_cons_of_skip _ rfl he, hall, hleft]
      refine ⟨read, matched, 1 + skipped, output, ?_, rfl⟩
      simp only [Outcome.after, Except.map, Stats.add, Nat.zero_add, Array.empty_append,
        Nat.add_left_comm]

/-! ### Stopping instead of skipping -/

/-- A sieve that meets no line without an answer does not tell whether it would skip one. -/
theorem meaningOf_of_no_fault {es : List Stream.Entry}
    (h : es.findSome? (Stream.Entry.fault? c) = none) :
    (Stream.tally c es).skipped = 0 ∧ meaningOf ⟨c, false⟩ es = meaningOf ⟨c, true⟩ es := by
  have hskipped : (Stream.tally c es).skipped = 0 := by
    rw [Stream.tally, List.filterMap_eq_nil_iff.mpr (List.findSome?_eq_none_iff.mp h)]
    rfl
  refine ⟨hskipped, ?_⟩
  rw [meaningOf, meaningOf, if_neg Bool.false_ne_true, if_pos rfl, h, ← hskipped]

/-- The copies before some entry are the first ones of all. -/
theorem copies_takeWhile_isPrefix (p : Stream.Entry → Bool) (es : List Stream.Entry) :
    Stream.copies c (es.takeWhile p) <+: Stream.copies c es := by
  obtain ⟨more, hmore⟩ := (List.takeWhile_prefix p (l := es)).filterMap (Stream.Entry.copied? c)
  refine ⟨more.flatMap Stream.copy, ?_⟩
  rw [Stream.copies, Stream.copies, ← hmore, List.flatMap_append]

/-- A sieve that stops would have skipped a line, -/
theorem skipped_pos_of_fault {es : List Stream.Entry} {error : StreamError}
    (h : es.findSome? (Stream.Entry.fault? c) = some error) : 0 < (Stream.tally c es).skipped := by
  obtain ⟨e, he, hfault⟩ := List.exists_of_findSome?_eq_some h
  exact List.length_pos_of_mem (List.mem_filterMap.mpr ⟨e, he, hfault⟩)

/-- **Skipping is deleting.** A run that skips lines without an answer counts and writes what
a run that stops at them does once they have been deleted, and the latter succeeds; it has
read so many lines more as it has skipped. On the input as it is, a run that stops at such
lines either succeeds, and then it is the same run and nothing was to be skipped; or it has
written a first part of what is written otherwise, and something was. -/
theorem run_skipping (keepBlanks : Bool) (pieces : List (List UInt8)) :
    ∃ read matched skipped output,
      Sieve.run ⟨c, true⟩ ⟨pieces, none⟩ .unlimited =
          ⟨.ok ⟨read + skipped, matched, skipped⟩, output⟩ ∧
        Sieve.run ⟨c, false⟩ (.ofBytes (Stream.answered c keepBlanks pieces.flatten)) .unlimited =
          ⟨.ok ⟨read, matched, 0⟩, output⟩ ∧
        match Sieve.run ⟨c, false⟩ ⟨pieces, none⟩ .unlimited with
        | ⟨.ok stats, written⟩ =>
          stats = ⟨read + skipped, matched, skipped⟩ ∧ skipped = 0 ∧ written = output
        | ⟨.error _, written⟩ => written.toList <+: output.toList ∧ 0 < skipped := by
  obtain ⟨read, matched, skipped, output, hall, hleft⟩ :=
    meaningOf_isKept c keepBlanks (Stream.physicalLines pieces.flatten) 1 1
  refine ⟨read, matched, skipped, output, ?_, ?_, ?_⟩
  · rw [run_eq_meaning]
    exact hall
  · rw [Source.ofBytes, run_eq_meaning, List.flatten_singleton, meaning, Stream.entries,
      Stream.answered, Stream.physicalLines_flatten_filter]
    exact hleft
  · have htable : meaningOf ⟨c, true⟩ (Stream.entries pieces.flatten) =
        ⟨.ok (Stream.tally c (Stream.entries pieces.flatten)),
          (Stream.copies c (Stream.entries pieces.flatten)).toArray⟩ := if_pos rfl
    rw [Stream.entries, hall, ← Stream.entries, Outcome.mk.injEq, Except.ok.injEq] at htable
    obtain ⟨htally, hcopies⟩ := htable
    rw [run_eq_meaning, meaning]
    cases hfault : (Stream.entries pieces.flatten).findSome? (Stream.Entry.fault? c) with
    | none =>
      obtain ⟨hskipped, hsame⟩ := meaningOf_of_no_fault c hfault
      rw [hsame, Stream.entries, hall]
      rw [← htally] at hskipped
      exact ⟨rfl, hskipped, rfl⟩
    | some error =>
      have hskipped := skipped_pos_of_fault c hfault
      rw [← htally] at hskipped
      rw [meaningOf, if_neg Bool.false_ne_true, hfault]
      rw [hcopies]
      exact ⟨copies_takeWhile_isPrefix c _ _, hskipped⟩

end Sieve

end JsonSieve
