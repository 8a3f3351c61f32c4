import Mathlib.Control.Monad.Basic
import JsonSieve.Proofs.Stream.Lines

/-!
# What a run means

Apart from its errors a run is a table over its input. The input has *entries*
(`JsonSieve.Stream.entries`): the texts of its lines that are not blank, each with
the number that its line has among all lines. What the text of a line is and when it is
blank is said here by the bytes alone (`JsonSieve.Stream.lineText`,
`JsonSieve.Stream.IsBlankText`). An entry has a document that is copied
(`JsonSieve.Stream.Entry.copied?`), or a fault (`JsonSieve.Stream.Entry.fault?`), or
neither, and none of this depends on any other entry. From these alone
`JsonSieve.Sieve.meaning` says what becomes of a run:

| lines with a fault | result                                | output                       |
|--------------------|---------------------------------------|------------------------------|
| are skipped        | the counts of entries of either kind  | all copies, in order         |
| stop the run       | the first fault                       | the copies before it         |
| there are none     | the counts, nothing skipped           | all copies, in order         |

`JsonSieve.Sieve.run_eq_meaning` says that a run whose source and sink do not fail has
this meaning. The loop interleaves counting, copying and numbering, so its state is
not a table; what one line does is said once (`JsonSieve.Sieve.processLine_eq`), and an
outcome that comes after something already counted and written (`JsonSieve.Outcome.after`)
is what the induction over the lines is about.
-/

namespace JsonSieve

namespace Stream

/-! ### The text of a line -/

/-- Some bytes without the last one, if that is `b`. -/
def withoutLast (b : UInt8) (s : List UInt8) : List UInt8 := if [b] <:+ s then s.dropLast else s

/-- **The text of a line**: without one newline at its end, and then without one carriage
return. -/
def lineText (line : List UInt8) : List UInt8 := withoutLast 0x0D (withoutLast 0x0A line)

/-- **A blank text**: all its bytes are tabs, newlines, form feeds, carriage returns and
spaces. -/
def IsBlankText (text : List UInt8) : Prop := ∀ b ∈ text, b ∈ [0x09, 0x0A, 0x0C, 0x0D, 0x20]

instance : DecidablePred IsBlankText := fun text =>
  inferInstanceAs (Decidable (∀ b ∈ text, b ∈ [0x09, 0x0A, 0x0C, 0x0D, 0x20]))

theorem withoutLast_eq_dropEnd (b : UInt8) (s : List UInt8) : withoutLast b s = dropEnd b s := by
  have hlast : [b] <:+ s ↔ s.getLast? = some b := by
    rw [List.getLast?_eq_some_iff]
    exact exists_congr fun _ => eq_comm
  rw [withoutLast, dropEnd, if_congr hlast rfl rfl]

/-- **The text of a line is what a run takes for its content.** -/
theorem lineText_eq_content (line : List UInt8) : lineText line = content line := by
  rw [lineText, withoutLast_eq_dropEnd, withoutLast_eq_dropEnd]
  rfl

/-- **The blank lines are those that a run passes over.** -/
theorem isBlankText_iff {text : List UInt8} : IsBlankText text ↔ isBlankLine text = true := by
  rw [isBlankLine, List.all_eq_true]
  refine forall₂_congr fun b _ => ?_
  simp only [isBlank, Bool.or_eq_true, beq_iff_eq, List.mem_cons, List.not_mem_nil, or_false,
    or_assoc]
  rfl

/-! ### Entries -/

/-- The text of a line that is not blank. -/
structure Entry where
  /-- The bytes. -/
  content : List UInt8
  /-- The number of the line, from one. -/
  number : Nat

/-- The entries among lines that are numbered from a given number on. -/
def entriesFrom (number : Nat) (lines : List (List UInt8)) : List Entry :=
  ((lines.map lineText).zipIdx number).filterMap fun (text, number) =>
    if IsBlankText text then none else some ⟨text, number⟩

/-- **The entries of an input.** -/
def entries (input : List UInt8) : List Entry := entriesFrom 1 (physicalLines input)

/-- The document of an entry, if it satisfies the condition. -/
def Entry.copied? (c : Condition) (e : Entry) : Option Document :=
  match c.evaluate e.content with
  | .ok ⟨d, true⟩ => some d
  | _ => none

/-- What is wrong with an entry without an answer. -/
def Entry.fault? (c : Condition) (e : Entry) : Option StreamError :=
  match c.evaluate e.content with
  | .ok _ => none
  | .error error => some (.line e.number error)

/-- A document on a line of its own: the UTF-8 form of its text, and a newline. -/
def copy (d : Document) : List UInt8 := (String.ofList d.toChars).toUTF8.data.toList ++ [0x0A]

/-- The copies that entries leave in the output. -/
def copies (c : Condition) (es : List Entry) : List UInt8 :=
  (es.filterMap (Entry.copied? c)).flatMap copy

/-- The counts of entries. -/
def tally (c : Condition) (es : List Entry) : Stats where
  read := es.length
  matched := (es.filterMap (Entry.copied? c)).length
  skipped := (es.filterMap (Entry.fault? c)).length

/-- A fault says which line it is in. -/
theorem Entry.exists_cause_of_fault? {c : Condition} {e : Entry} {error : StreamError}
    (h : e.fault? c = some error) : ∃ cause, error = .line e.number cause := by
  unfold fault? at h
  split at h
  · cases h
  · exact ⟨_, (Option.some.inj h).symm⟩

theorem copy_eq (d : Document) : copy d = Utf8.encode d.toChars ++ [Ascii.newline] := by
  rw [copy, ← Utf8.bytes_eq_toUTF8, Utf8.bytes, String.toList_ofList]
  rfl

/-- A document is copied as one text. -/
theorem copy_eq_encode (d : Document) : copy d = Utf8.encode (d.toChars ++ ['\n']) := by
  rw [copy_eq, Utf8.encode_append]
  rfl

theorem entriesFrom_nil (number : Nat) : entriesFrom number [] = [] := rfl

/-- The entries are made of the contents that a run sees. -/
theorem entriesFrom_eq (number : Nat) (lines : List (List UInt8)) :
    entriesFrom number lines =
      ((lines.map content).zipIdx number).filterMap fun (content, number) =>
        if isBlankLine content then none else some ⟨content, number⟩ := by
  have htexts : lines.map lineText = lines.map content :=
    List.map_congr_left fun line _ => lineText_eq_content line
  simp only [entriesFrom, htexts, isBlankText_iff]

theorem entriesFrom_cons_blank {line : List UInt8} (h : isBlankLine (content line) = true)
    (number : Nat) (lines : List (List UInt8)) :
    entriesFrom number (line :: lines) = entriesFrom (number + 1) lines := by
  simp [entriesFrom_eq, h]

theorem entriesFrom_cons {line : List UInt8} (h : ¬isBlankLine (content line) = true)
    (number : Nat) (lines : List (List UInt8)) :
    entriesFrom number (line :: lines) =
      ⟨content line, number⟩ :: entriesFrom (number + 1) lines := by
  simp [entriesFrom_eq, h]

/-- Entries have the numbers of their lines. -/
theorem number_of_mem_entriesFrom {number : Nat} {lines : List (List UInt8)} {e : Entry}
    (h : e ∈ entriesFrom number lines) :
    number ≤ e.number ∧ e.number < number + lines.length := by
  obtain ⟨⟨content, n⟩, hmem, he⟩ := List.mem_filterMap.mp h
  dsimp only at he
  split at he
  · cases he
  · obtain rfl := Option.some.inj he
    have hzip := List.mem_zipIdx hmem
    rw [List.length_map] at hzip
    exact ⟨hzip.1, hzip.2.1⟩

end Stream

/-! ### The table -/

namespace Sieve

variable (sieve : Sieve)

/-- What becomes of entries. -/
def meaningOf (es : List Stream.Entry) : Outcome :=
  if sieve.skipErrors then
    ⟨.ok (Stream.tally sieve.condition es), (Stream.copies sieve.condition es).toArray⟩
  else
    match es.findSome? (Stream.Entry.fault? sieve.condition) with
    | none =>
      ⟨.ok { Stream.tally sieve.condition es with skipped := 0 },
        (Stream.copies sieve.condition es).toArray⟩
    | some error =>
      ⟨.error error, (Stream.copies sieve.condition
        (es.takeWhile fun e => (e.fault? sieve.condition).isNone)).toArray⟩

/-- **The meaning of a run** on an input. -/
def meaning (input : List UInt8) : Outcome := sieve.meaningOf (Stream.entries input)

end Sieve

/-! ### Outcomes that come after others -/

deriving instance DecidableEq for Outcome

/-- Counts that are added up. -/
def Stats.add (s t : Stats) : Stats :=
  ⟨s.read + t.read, s.matched + t.matched, s.skipped + t.skipped⟩

theorem Stats.add_assoc (s t u : Stats) : (s.add t).add u = s.add (t.add u) := by
  simp only [Stats.add, Nat.add_assoc]

@[simp] theorem Stats.zero_add (s : Stats) : Stats.zero.add s = s := by
  simp [Stats.add, Stats.zero]

/-- An outcome that comes after something that has been counted and written. -/
def Outcome.after (stats : Stats) (output : Array UInt8) (outcome : Outcome) : Outcome :=
  ⟨outcome.result.map stats.add, output ++ outcome.output⟩

theorem Outcome.after_after (s t : Stats) (a b : Array UInt8) (outcome : Outcome) :
    (outcome.after t b).after s a = outcome.after (s.add t) (a ++ b) := by
  rcases outcome with ⟨_ | u, output⟩
  · simp [Outcome.after, Except.map]
  · simp [Outcome.after, Except.map, Stats.add_assoc]

/-- Where nothing has been counted the result is the same. -/
theorem Outcome.after_zero_stats (outcome : Outcome) (output : Array UInt8) :
    outcome.after .zero output = ⟨outcome.result, output ++ outcome.output⟩ := by
  rcases outcome with ⟨_ | u, written⟩ <;> simp [Outcome.after, Except.map]

@[simp] theorem Outcome.after_zero (outcome : Outcome) : outcome.after .zero #[] = outcome := by
  rw [after_zero_stats, Array.empty_append]

namespace Sieve

variable {sieve : Sieve} {e : Stream.Entry} (es : List Stream.Entry)

/-- What stops a run is the fault of an entry, -/
theorem exists_fault_of_meaningOf {error : StreamError}
    (h : (sieve.meaningOf es).result = .error error) :
    ∃ e ∈ es, e.fault? sieve.condition = some error := by
  rw [meaningOf] at h
  split at h
  · cases h
  · split at h
    · cases h
    · rename_i fault hfault
      obtain rfl : fault = error := by simpa using h
      exact List.exists_of_findSome?_eq_some hfault

theorem exists_entry_of_meaningOf {error : StreamError}
    (h : (sieve.meaningOf es).result = .error error) :
    ∃ e ∈ es, ∃ cause, error = .line e.number cause := by
  obtain ⟨e, hmem, he⟩ := exists_fault_of_meaningOf es h
  exact ⟨e, hmem, Stream.Entry.exists_cause_of_fault? he⟩

/-- and so it is a line. -/
theorem exists_line_of_meaningOf {error : StreamError}
    (h : (sieve.meaningOf es).result = .error error) :
    ∃ number cause, error = .line number cause := by
  obtain ⟨e, -, cause, he⟩ := exists_entry_of_meaningOf es h
  exact ⟨e.number, cause, he⟩

theorem meaningOf_nil : sieve.meaningOf [] = ⟨.ok .zero, #[]⟩ := by
  by_cases h : sieve.skipErrors = true
  · rw [meaningOf, if_pos h]
    rfl
  · rw [meaningOf, if_neg h]
    rfl

/-- An entry that is answered is counted, and copied if the answer is yes. -/
theorem meaningOf_cons_of_ok {d : Document} {matched : Bool}
    (h : sieve.condition.evaluate e.content = .ok ⟨d, matched⟩) :
    sieve.meaningOf (e :: es) = (sieve.meaningOf es).after ⟨1, matched.toNat, 0⟩
      (if matched then (Stream.copy d).toArray else #[]) := by
  have hfault : e.fault? sieve.condition = none := by rw [Stream.Entry.fault?, h]
  have hcopied : e.copied? sieve.condition = if matched then some d else none := by
    rw [Stream.Entry.copied?, h]
    cases matched <;> rfl
  by_cases hskip : sieve.skipErrors = true
  · simp only [meaningOf, if_pos hskip]
    cases matched <;>
      simp [Outcome.after, Except.map, Stats.add, Stream.tally, Stream.copies, hfault, hcopied,
        Nat.add_comm]
  · -- the entry has no fault, so that the first fault is one of the others
    simp only [meaningOf, if_neg hskip, List.findSome?_cons, hfault]
    cases es.findSome? (Stream.Entry.fault? sieve.condition) <;> cases matched <;>
      simp [Outcome.after, Except.map, Stats.add, Stream.tally, Stream.copies, hfault, hcopied,
        Nat.add_comm]

/-- An entry without an answer is counted among those that are skipped. -/
theorem meaningOf_cons_of_skip (hskip : sieve.skipErrors = true) {error : EvaluationError}
    (h : sieve.condition.evaluate e.content = .error error) :
    sieve.meaningOf (e :: es) = (sieve.meaningOf es).after ⟨1, 0, 1⟩ #[] := by
  have hfault : e.fault? sieve.condition = some (.line e.number error) := by
    rw [Stream.Entry.fault?, h]
  have hcopied : e.copied? sieve.condition = none := by rw [Stream.Entry.copied?, h]
  simp [meaningOf, hskip, Outcome.after, Except.map, Stats.add, Stream.tally, Stream.copies, hfault,
    hcopied, Nat.add_comm]

/-- An entry without an answer is the end, unless it is skipped. -/
theorem meaningOf_cons_of_stop (hskip : ¬sieve.skipErrors = true) {error : EvaluationError}
    (h : sieve.condition.evaluate e.content = .error error) :
    sieve.meaningOf (e :: es) = ⟨.error (.line e.number error), #[]⟩ := by
  have hfault : e.fault? sieve.condition = some (.line e.number error) := by
    rw [Stream.Entry.fault?, h]
  rw [meaningOf, if_neg hskip, List.findSome?_cons, hfault]
  simp [Stream.copies, hfault]

end Sieve

/-! ### One line -/

/-- A sink that does not fail. -/
structure Sink.Free (sink : Sink) : Prop where
  /-- It takes everything. -/
  room : sink.room = none
  /-- It is flushed without a fault. -/
  flush : sink.flushFault = none

theorem Sink.free_unlimited : Sink.unlimited.Free := ⟨rfl, rfl⟩

/-- A session in which one more line has been processed. -/
def Session.advance (s : Session) (stats : Stats) (bytes : Array UInt8) : Session :=
  { s with
    lines := s.lines + 1
    stats := s.stats.add stats
    sink := { s.sink with accepted := s.sink.accepted ++ bytes } }

theorem Session.free_advance {s : Session} (h : s.sink.Free) (stats : Stats) (bytes : Array UInt8) :
    (s.advance stats bytes).sink.Free := ⟨h.room, h.flush⟩

theorem Sink.write_nil (sink : Sink) : sink.write [] = (sink, none) := by
  rcases sink with ⟨accepted, _ | room, writeFault, flushFault⟩ <;> simp [write]

namespace Sieve

variable {sieve : Sieve} {s : Session} {line : List UInt8}

/-- What the content of a line adds to the counts and to the output, unless it stops the
run. -/
def addition (sieve : Sieve) (content : List UInt8) :
    Except EvaluationError (Stats × List UInt8) :=
  if Stream.isBlankLine content then .ok (.zero, [])
  else
    match sieve.condition.evaluate content with
    | .ok ⟨d, true⟩ => .ok (⟨1, 1, 0⟩, Stream.copy d)
    | .ok ⟨_, false⟩ => .ok (⟨1, 0, 0⟩, [])
    | .error error => if sieve.skipErrors then .ok (⟨1, 0, 1⟩, []) else .error error

/-- A line, with what it adds, and the sink after that. -/
def addLine (s : Session) (stats : Stats) (bytes : List UInt8) : Except Stop Session :=
  match s.sink.write bytes with
  | (sink, none) => .ok { s with lines := s.lines + 1, stats := s.stats.add stats, sink }
  | (sink, some text) => .error ⟨.io text, sink⟩

/-- **All that a line does**: it stops the run, or it adds something to the counts and
writes something. -/
theorem processLine_eq (sieve : Sieve) (s : Session) (line : List UInt8) :
    sieve.processLine s line =
      match sieve.addition (Stream.content line) with
      | .error error => .error ⟨.line (s.lines + 1) error, s.sink⟩
      | .ok (stats, bytes) => addLine s stats bytes := by
  rw [processLine, addition]
  by_cases hblank : Stream.isBlankLine (Stream.content line) = true
  · simp [hblank, addLine, Sink.write_nil, Stats.add, Stats.zero]
  · simp only [if_neg hblank, processContent]
    rcases he : sieve.condition.evaluate (Stream.content line) with error | ⟨d, _ | _⟩
    · by_cases hskip : sieve.skipErrors = true
      · simp [hskip, addLine, Sink.write_nil, Stats.add]
      · simp [hskip]
    · simp [addLine, Sink.write_nil, Stats.add]
    · simp only [emit, addLine, ← Stream.copy_eq_encode]
      rcases s.sink.write (Stream.copy d) with ⟨sink, _ | text⟩ <;> simp [Stats.add]

theorem addLine_of_free (h : s.sink.Free) (stats : Stats) (bytes : List UInt8) :
    addLine s stats bytes = .ok (s.advance stats bytes.toArray) := by
  have hbytes : s.sink.accepted ++ bytes = s.sink.accepted ++ bytes.toArray :=
    Array.ext' (by simp)
  rw [addLine, Sink.write_of_room_eq_none h.room, hbytes]
  rfl

theorem free_of_processLine (hs : s.sink.Free) {t : Session}
    (h : sieve.processLine s line = .ok t) : t.sink.Free := by
  rw [processLine_eq] at h
  split at h
  · cases h
  · rw [addLine_of_free hs] at h
    cases h
    exact Session.free_advance hs _ _

theorem processLine_of_blank (h : Stream.isBlankLine (Stream.content line) = true) :
    sieve.processLine s line = .ok (s.advance .zero #[]) := by
  rw [processLine_eq, addition, if_pos h]
  simp [addLine, Sink.write_nil, Session.advance]

theorem processLine_of_ok (hsink : s.sink.Free)
    (hblank : ¬Stream.isBlankLine (Stream.content line) = true) {d : Document} {matched : Bool}
    (h : sieve.condition.evaluate (Stream.content line) = .ok ⟨d, matched⟩) :
    sieve.processLine s line = .ok (s.advance ⟨1, matched.toNat, 0⟩
      (if matched then (Stream.copy d).toArray else #[])) := by
  rw [processLine_eq, addition, if_neg hblank, h]
  cases matched <;> exact addLine_of_free hsink _ _

theorem processLine_of_skip (hskip : sieve.skipErrors = true)
    (hblank : ¬Stream.isBlankLine (Stream.content line) = true) {error : EvaluationError}
    (h : sieve.condition.evaluate (Stream.content line) = .error error) :
    sieve.processLine s line = .ok (s.advance ⟨1, 0, 1⟩ #[]) := by
  rw [processLine_eq, addition, if_neg hblank, h]
  simp [hskip, addLine, Sink.write_nil, Session.advance]

theorem processLine_of_stop (hskip : ¬sieve.skipErrors = true)
    (hblank : ¬Stream.isBlankLine (Stream.content line) = true) {error : EvaluationError}
    (h : sieve.condition.evaluate (Stream.content line) = .error error) :
    sieve.processLine s line = .error ⟨.line (s.lines + 1) error, s.sink⟩ := by
  rw [processLine_eq, addition, if_neg hblank, h]
  simp [hskip]

/-! ### All lines -/

/-- **What lines do to a session** is what their entries mean, after what the session
has counted and written. -/
theorem finish_foldlM_processLine (sieve : Sieve) (s : Session) (hsink : s.sink.Free)
    (lines : List (List UInt8)) :
    finish (lines.foldlM sieve.processLine s) =
      (sieve.meaningOf (Stream.entriesFrom (s.lines + 1) lines)).after s.stats s.sink.accepted := by
  induction lines generalizing s with
  | nil =>
    rw [List.foldlM_nil, Stream.entriesFrom_nil, meaningOf_nil]
    simp [pure, Except.pure, finish, flush, hsink.flush, Outcome.after, Except.map, Stats.add,
      Stats.zero]
  | cons line lines ih =>
    -- what is counted and written for the line stands before the rest of the table
    have hstep {stats : Stats} {bytes : Array UInt8}
        (h : sieve.processLine s line = .ok (s.advance stats bytes)) :
        finish ((line :: lines).foldlM sieve.processLine s) =
          ((sieve.meaningOf (Stream.entriesFrom (s.lines + 2) lines)).after stats bytes).after
            s.stats s.sink.accepted := by
      rw [List.foldlM_cons, h, Outcome.after_after]
      exact ih _ (Session.free_advance hsink stats bytes)
    by_cases hblank : Stream.isBlankLine (Stream.content line) = true
    · rw [hstep (processLine_of_blank hblank), Stream.entriesFrom_cons_blank hblank,
        Outcome.after_zero]
    · rw [Stream.entriesFrom_cons hblank]
      cases he : sieve.condition.evaluate (Stream.content line) with
      | ok answer =>
        rw [hstep (processLine_of_ok hsink hblank he), meaningOf_cons_of_ok _ he]
      | error error =>
        by_cases hskip : sieve.skipErrors = true
        · rw [hstep (processLine_of_skip hskip hblank he), meaningOf_cons_of_skip _ hskip he]
        · rw [List.foldlM_cons, processLine_of_stop hskip hblank he,
            meaningOf_cons_of_stop _ hskip he]
          simp [Outcome.after, Except.map, bind, Except.bind, finish, Stop.outcome]

/-- **A run has its meaning**: with a source and a sink that do not fail, and in
whatever pieces the input arrives. -/
theorem run_eq_meaning (sieve : Sieve) (pieces : List (List UInt8)) :
    sieve.run ⟨pieces, none⟩ .unlimited = sieve.meaning pieces.flatten := by
  rw [run_eq_finish, sieve.finish_foldlM_processLine _ Sink.free_unlimited]
  exact Outcome.after_zero _

end Sieve

end JsonSieve
