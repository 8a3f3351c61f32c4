import Mathlib.Data.List.DropRight
import JsonSieve.Proofs.Stream.Meaning

/-!
# Faults cut a run at one point

Reading may fail after some bytes of the input, writing when there is no more room, and
flushing at the end (`JsonSieve.Faults`). None of this changes what a run does up to the
fault: it is a run without faults over the complete lines that were read
(`JsonSieve.Faults.processed`), whose output and result are then cut
(`JsonSieve.Faults.cut`). `JsonSieve.Sieve.run_eq_cut` says so for all faults at once.

Two facts carry the proof. Writing bytes in two parts is writing them at once, a failure
included (`JsonSieve.Sink.write_append`); so a run with a sink that may fail is a run with
one that does not, whose output is written to the first sink afterwards
(`JsonSieve.Sink.receive`), and this commutes with every line
(`JsonSieve.Sieve.receive_processLine`). And bytes that do not end a line change nothing
but the line that is pending (`JsonSieve.Sieve.settled_feed`).
-/

namespace JsonSieve

/-! ### Complete lines -/

namespace Stream

/-- **The complete lines of an input**: everything up to its last newline. -/
def completed (input : List UInt8) : List UInt8 := input.rdropWhile (· != Ascii.newline)

theorem completed_of_not_mem {input : List UInt8} (h : Ascii.newline ∉ input) :
    completed input = [] := by
  refine List.rdropWhile_eq_nil_iff.mpr fun b hb => bne_iff_ne.mpr ?_
  rintro rfl
  exact h hb

theorem completed_append_newline (line rest : List UInt8) :
    completed (line ++ Ascii.newline :: rest) = line ++ Ascii.newline :: completed rest := by
  induction rest using List.reverseRecOn with
  | nil => exact List.rdropWhile_concat_neg _ _ _ (by simp)
  | append_singleton rest b ih =>
    have hassoc : line ++ Ascii.newline :: (rest ++ [b]) =
        (line ++ Ascii.newline :: rest) ++ [b] := by simp
    rw [hassoc, completed, completed, List.rdropWhile_concat, List.rdropWhile_concat]
    split
    · exact ih
    · simp

theorem completed_isPrefix (input : List UInt8) : completed input <+: input :=
  List.rdropWhile_prefix _ _

/-- The complete lines are complete. -/
theorem isComplete_completed (input : List UInt8) : IsComplete (completed input) := by
  rcases eq_or_ne (completed input) [] with hnil | hne
  · exact Or.inl hnil
  · have hlast := List.rdropWhile_last_not (· != Ascii.newline) input hne
    refine Or.inr ?_
    rw [List.getLast?_eq_some_getLast hne]
    exact congrArg some (by simpa [completed] using hlast)

end Stream

/-! ### Writing in parts -/

namespace Sink

theorem append_list_append (accepted : Array UInt8) (a b : List UInt8) :
    accepted ++ (a ++ b) = accepted ++ a ++ b :=
  Array.ext' (by simp)

/-- **Writing in two parts is writing at once**, whichever part fails. -/
theorem write_append (sink : Sink) (a b : List UInt8) :
    sink.write (a ++ b) = match sink.write a with
      | (sink', none) => sink'.write b
      | (sink', some text) => (sink', some text) := by
  rcases sink with ⟨accepted, _ | room, writeFault, flushFault⟩
  · simp [write, append_list_append]
  · by_cases ha : a.length ≤ room
    · by_cases hb : a.length + b.length ≤ room
      · have hb' : b.length ≤ room - a.length := by omega
        simp [write, ha, hb, hb', Nat.sub_sub, append_list_append]
      · have hb' : ¬b.length ≤ room - a.length := by omega
        simp [write, ha, hb, hb', List.take_append, List.take_of_length_le ha, append_list_append]
    · have hab : ¬a.length + b.length ≤ room := by omega
      simp [write, ha, hab, List.take_append, Nat.sub_eq_zero_of_le (Nat.le_of_not_le ha)]

/-- What has been written stays written. -/
theorem accepted_prefix_write (sink : Sink) (bytes : List UInt8) :
    sink.accepted.toList <+: (sink.write bytes).1.accepted.toList := by
  obtain ⟨n, hn⟩ := sink.exists_accepted_write bytes
  rw [hn, Array.toList_appendList]
  exact List.prefix_append _ _

/-- **What becomes of a run** whose output is written to another sink afterwards. -/
def receive (sink : Sink) : Except Stop Session → Except Stop Session
  | .error stop =>
    match sink.write stop.sink.accepted.toList with
    | (sink, none) => .error ⟨stop.error, sink⟩
    | (sink, some text) => .error ⟨.io text, sink⟩
  | .ok s =>
    match sink.write s.sink.accepted.toList with
    | (sink, none) => .ok { s with sink }
    | (sink, some text) => .error ⟨.io text, sink⟩

end Sink

/-! ### One line -/

namespace Sieve

variable {sieve : Sieve} {s : Session}

/-- **The output of a line may be written elsewhere before or after it**, with the same
outcome. -/
theorem receive_processLine (hs : s.sink.Free) (sink : Sink) (line : List UInt8) :
    sink.receive (sieve.processLine s line) =
      sink.receive (.ok s) >>= fun t => sieve.processLine t line := by
  simp only [processLine_eq]
  rcases sieve.addition (Stream.content line) with error | ⟨stats, bytes⟩
  · simp only [Sink.receive]
    rcases sink.write s.sink.accepted.toList with ⟨sink', _ | text⟩ <;> rfl
  · -- what was written before comes first
    have hwrite := sink.write_append s.sink.accepted.toList bytes
    simp only [addLine_of_free hs, Sink.receive, Session.advance, Array.toList_append, hwrite]
    rcases sink.write s.sink.accepted.toList with ⟨sink', _ | text⟩ <;> rfl

/-! ### All lines -/

theorem free_of_foldlM_processLine (hs : s.sink.Free) {lines : List (List UInt8)} {t : Session}
    (h : lines.foldlM sieve.processLine s = .ok t) : t.sink.Free :=
  foldlM_keeps (P := fun s => s.sink.Free) (fun hs h => free_of_processLine hs h) hs h

/-- **The output of all lines may be written elsewhere afterwards.** -/
theorem receive_foldlM_processLine (hs : s.sink.Free) (sink : Sink) (lines : List (List UInt8)) :
    sink.receive (lines.foldlM sieve.processLine s) =
      sink.receive (.ok s) >>= fun t => lines.foldlM sieve.processLine t := by
  induction lines generalizing s with
  | nil => exact (bind_pure (sink.receive (.ok s))).symm
  | cons line lines ih =>
    calc sink.receive ((line :: lines).foldlM sieve.processLine s)
        = sink.receive (sieve.processLine s line) >>=
            fun t => lines.foldlM sieve.processLine t := by
          rw [List.foldlM_cons]
          cases hline : sieve.processLine s line with
          | error stop =>
            -- a run that has been stopped stays stopped
            simp only [Sink.receive, bind, Except.bind]
            rcases sink.write stop.sink.accepted.toList with ⟨sink', _ | text⟩ <;> rfl
          | ok t => exact ih (free_of_processLine hs hline)
      _ = sink.receive (.ok s) >>= fun t => (line :: lines).foldlM sieve.processLine t := by
          rw [receive_processLine hs, bind_assoc]
          rfl

theorem receive_start (sink : Sink) :
    sink.receive (.ok (Session.start .unlimited)) = .ok (Session.start sink) := by
  have hwrite : sink.write Sink.unlimited.accepted.toList = (sink, none) := sink.write_nil
  simp only [Sink.receive, Session.start, hwrite]

/-- **A run that writes to any sink** is one that writes to a sink without faults, whose
output is written to the other afterwards. -/
theorem foldlM_processLine_start (sieve : Sieve) (sink : Sink) (lines : List (List UInt8)) :
    lines.foldlM sieve.processLine (Session.start sink) =
      sink.receive (lines.foldlM sieve.processLine (Session.start .unlimited)) := by
  rw [receive_foldlM_processLine Sink.free_unlimited, receive_start]
  rfl

/-! ### Lines that are not complete -/

end Sieve

/-- A session without the line that is being read. -/
def Session.settled (s : Session) : Session := { s with pending := [] }

namespace Sieve

variable {sieve : Sieve} {s : Session}

/-- **Bytes are taken as the complete lines among them**, the first of which begins with
the pending bytes. -/
theorem settled_feed (input : List UInt8) (h : Ascii.newline ∉ s.pending) :
    (sieve.feed s input).map Session.settled =
      (Stream.physicalLines (Stream.completed (s.pending.reverse ++ input))).foldlM
        sieve.processLine s.settled := by
  induction input generalizing s with
  | nil =>
    have hnl : Ascii.newline ∉ s.pending.reverse ++ [] := by simpa using h
    rw [Stream.completed_of_not_mem hnl]
    rfl
  | cons b rest ih =>
    rw [feed, List.foldlM_cons, push]
    by_cases hb : b = Ascii.newline
    · subst hb
      have hnl : Ascii.newline ∉ s.pending.reverse := by rwa [List.mem_reverse]
      rw [if_pos rfl, Stream.completed_append_newline, Stream.physicalLines_append_newline hnl,
        List.foldlM_cons, List.reverse_cons]
      cases ht : sieve.processLine s.settled (s.pending.reverse ++ [Ascii.newline]) with
      | error stop =>
        rw [Session.settled] at ht
        rw [ht]
        rfl
      | ok t =>
        have hp : t.pending = [] := pending_processLine ht
        have hsettled : t.settled = t := by rw [Session.settled, ← hp]
        have := @ih t (by simp [hp])
        rw [hp, hsettled] at this
        rw [Session.settled] at ht
        rw [ht]
        exact this
    · -- the byte goes on with the line
      rw [if_neg hb]
      have hrest := @ih { s with pending := b :: s.pending } (by simp [h, Ne.symm hb])
      rw [List.reverse_cons, List.append_assoc] at hrest
      exact hrest

/-- **A run that reading ends** processes the complete lines that were read. -/
theorem run_of_readFault (sieve : Sieve) (pieces : List (List UInt8)) (text : String)
    (sink : Sink) :
    sieve.run ⟨pieces, some text⟩ sink =
      match (Stream.physicalLines (Stream.completed pieces.flatten)).foldlM sieve.processLine
          (Session.start sink) with
      | .error stop => stop.outcome
      | .ok s => ⟨.error (.io text), s.sink.accepted⟩ := by
  have h := sieve.settled_feed (s := Session.start sink) pieces.flatten List.not_mem_nil
  rw [run, foldlM_feed]
  rw [show (Session.start sink).pending.reverse = [] from rfl, List.nil_append] at h
  rw [show (Session.start sink).settled = Session.start sink from rfl] at h
  rw [← h]
  cases sieve.feed (Session.start sink) pieces.flatten <;> rfl

/-! ### Output only grows -/

theorem accepted_prefix_finish (sieve : Sieve) (s : Session) (lines : List (List UInt8)) :
    s.sink.accepted.toList <+: (finish (lines.foldlM sieve.processLine s)).output.toList := by
  induction lines generalizing s with
  | nil =>
    simp only [List.foldlM_nil, pure, Except.pure, finish, flush]
    cases s.sink.flushFault <;> exact List.prefix_rfl
  | cons line lines ih =>
    rw [List.foldlM_cons, processLine_eq]
    rcases sieve.addition (Stream.content line) with error | ⟨stats, bytes⟩
    · exact List.prefix_rfl
    · have hgrow := s.sink.accepted_prefix_write bytes
      dsimp only [addLine]
      rcases hwrite : s.sink.write bytes with ⟨sink, _ | text⟩ <;> rw [hwrite] at hgrow
      · exact hgrow.trans (ih { s with lines := s.lines + 1, stats := s.stats.add stats, sink })
      · exact hgrow

/-- A run over further lines writes further bytes, if any. -/
theorem output_finish_isPrefix (sieve : Sieve) (s : Session) (lines more : List (List UInt8)) :
    (finish (lines.foldlM sieve.processLine s)).output.toList <+:
      (finish ((lines ++ more).foldlM sieve.processLine s)).output.toList := by
  rw [List.foldlM_append]
  cases lines.foldlM sieve.processLine s with
  | error stop => exact List.prefix_rfl
  | ok t =>
    have ht : (finish (.ok t)).output = t.sink.accepted := by
      rw [finish, flush]
      cases t.sink.flushFault <;> rfl
    rw [ht]
    exact accepted_prefix_finish sieve t more

end Sieve

/-! ### Faults -/

/-- **What may go wrong with a run**, and what is said then. -/
structure Faults where
  /-- After how many bytes of the input reading fails. -/
  read : Option (Nat × String)
  /-- How many bytes can be written, before writing fails. -/
  write : Option (Nat × String)
  /-- Whether flushing fails. -/
  flush : Option String

namespace Faults

variable (faults : Faults)

/-- The part of an input that is read. -/
def delivered (input : List UInt8) : List UInt8 :=
  match faults.read with
  | none => input
  | some (n, _) => input.take n

/-- The part of an input that is processed: everything, or the complete lines before
reading fails. -/
def processed (input : List UInt8) : List UInt8 :=
  match faults.read with
  | none => input
  | some (n, _) => Stream.completed (input.take n)

/-- A source that delivers pieces, and then fails if reading does. -/
def source (pieces : List (List UInt8)) : Source := ⟨pieces, faults.read.map Prod.snd⟩

/-- A sink that fails when writing and flushing do. -/
def sink : Sink :=
  ⟨#[], faults.write.map Prod.fst, (faults.write.map Prod.snd).getD "", faults.flush⟩

/-- The fault that writing so many bytes meets. -/
def overflow? (size : Nat) : Option (Nat × String) := faults.write.filter fun (n, _) => n < size

/-- The result of a run all of whose output is written: a run that would succeed fails if
reading does, and else if flushing does. -/
def result : Except StreamError Stats → Except StreamError Stats
  | .error error => .error error
  | .ok stats =>
    match faults.read, faults.flush with
    | some (_, text), _ => .error (.io text)
    | none, some text => .error (.io text)
    | none, none => .ok stats

/-- **Where faults cut a run** that would have the outcome `clean`: where there is no more
room, or at its end. -/
def cut (clean : Outcome) : Outcome :=
  match faults.overflow? clean.output.size with
  | some (n, text) => ⟨.error (.io text), clean.output.take n⟩
  | none => ⟨faults.result clean.result, clean.output⟩

theorem write_of_overflow? {output : Array UInt8} {n : Nat} {text : String}
    (h : faults.overflow? output.size = some (n, text)) :
    faults.sink.write output.toList =
      ({ faults.sink with accepted := output.take n, room := some 0 }, some text) := by
  obtain ⟨hwrite, hlt⟩ := Option.filter_eq_some_iff.mp h
  have hle : ¬output.toList.length ≤ n := by simpa using hlt
  have htake : #[] ++ output.toList.take n = output.take n :=
    Array.ext' (by rw [Array.toList_appendList]; simp)
  simp only [sink, Sink.write, hwrite, Option.map_some, if_neg hle, htake, Option.getD_some]

theorem exists_write_of_overflow? {output : Array UInt8}
    (h : faults.overflow? output.size = none) :
    ∃ room, faults.sink.write output.toList =
      ({ faults.sink with accepted := output, room }, none) := by
  have houtput : #[] ++ output.toList = output :=
    Array.ext' (by rw [Array.toList_appendList]; rfl)
  rcases hwrite : faults.write with _ | ⟨n, text⟩
  · exact ⟨none, by simp only [sink, Sink.write, hwrite, Option.map_none, houtput]⟩
  · have hle : output.toList.length ≤ n := by simpa [overflow?, hwrite] using h
    exact ⟨some (n - output.toList.length), by
      simp only [sink, Sink.write, hwrite, Option.map_some, if_pos hle, houtput]⟩

end Faults

namespace Sieve

/-- The end of a run whose source may have failed. -/
def ending (fault : Option String) : Except Stop Session → Outcome
  | .error stop => stop.outcome
  | .ok s =>
    match fault with
    | some text => ⟨.error (.io text), s.sink.accepted⟩
    | none => flush s

theorem run_eq_ending (sieve : Sieve) (faults : Faults) {input : List UInt8}
    {pieces : List (List UInt8)} (h : pieces.flatten = faults.delivered input) :
    sieve.run (faults.source pieces) faults.sink =
      ending (faults.read.map Prod.snd)
        (faults.sink.receive ((Stream.physicalLines (faults.processed input)).foldlM
          sieve.processLine (Session.start .unlimited))) := by
  rw [← foldlM_processLine_start]
  rcases hread : faults.read with _ | ⟨n, text⟩
  · rw [Faults.source, Faults.processed, hread]
    rw [Faults.delivered, hread] at h
    dsimp only at h
    exact (run_eq_finish sieve pieces faults.sink).trans (by rw [h]; rfl)
  · rw [Faults.source, Faults.processed, hread]
    rw [Faults.delivered, hread] at h
    dsimp only at h
    exact (run_of_readFault sieve pieces text faults.sink).trans (by rw [h]; rfl)

/-- **What is written afterwards is cut by the faults.** -/
theorem ending_receive (faults : Faults) {run : Except Stop Session}
    (hrun : ∀ s, run = .ok s → s.sink.Free) :
    ending (faults.read.map Prod.snd) (faults.sink.receive run) = faults.cut (finish run) := by
  cases run with
  | error stop =>
    rcases h : faults.overflow? stop.sink.accepted.size with _ | ⟨n, text⟩
    · obtain ⟨room, hwrite⟩ := faults.exists_write_of_overflow? h
      simp only [Sink.receive, hwrite, ending, finish, Stop.outcome, Faults.cut, h, Faults.result]
    · have hwrite := faults.write_of_overflow? h
      simp only [Sink.receive, hwrite, ending, finish, Stop.outcome, Faults.cut, h]
  | ok s =>
    have hflush : finish (.ok s) = ⟨.ok s.stats, s.sink.accepted⟩ := by
      simp only [finish, flush, (hrun s rfl).flush]
    rw [hflush]
    rcases h : faults.overflow? s.sink.accepted.size with _ | ⟨n, text⟩
    · obtain ⟨room, hwrite⟩ := faults.exists_write_of_overflow? h
      simp only [Sink.receive, hwrite, Faults.cut, h, Faults.result, ending, flush]
      -- reading fails before the sink is flushed
      rcases hread : faults.read with _ | ⟨n, text⟩
      · rcases hfault : faults.flush with _ | text <;> simp [Faults.sink, hfault]
      · rfl
    · have hwrite := faults.write_of_overflow? h
      simp only [Sink.receive, hwrite, ending, Stop.outcome, Faults.cut, h]

/-- What is written to a sink with faults is a first part of what should be. -/
theorem output_cut_isPrefix (faults : Faults) (clean : Outcome) :
    (faults.cut clean).output.toList <+: clean.output.toList := by
  rw [Faults.cut]
  split
  · rename_i n text h
    simpa using List.take_prefix n clean.output.toList
  · exact List.prefix_rfl

/-- The lines that are processed are the first ones of the input. -/
theorem exists_physicalLines_processed (faults : Faults) (input : List UInt8) :
    ∃ more, Stream.physicalLines input =
      Stream.physicalLines (faults.processed input) ++ more := by
  rcases hread : faults.read with _ | ⟨n, text⟩
  · exact ⟨[], by rw [Faults.processed, hread, List.append_nil]⟩
  · rw [Faults.processed, hread]
    obtain ⟨rest, hrest⟩ :=
      (Stream.completed_isPrefix (input.take n)).trans (List.take_prefix n input)
    have hlines := Stream.physicalLines_append (Stream.isComplete_completed (input.take n)) rest
    rw [hrest] at hlines
    exact ⟨_, hlines⟩

/-- **Faults cut a run at one point.** Whatever fails and in whatever pieces the input
arrives, the run is that over the complete lines that were read, cut where there is no
more room or else at its end; and what is written is a first part of what would be written
without faults. -/
theorem run_eq_cut (sieve : Sieve) (faults : Faults) (input : List UInt8)
    (pieces : List (List UInt8)) (h : pieces.flatten = faults.delivered input) :
    sieve.run (faults.source pieces) faults.sink =
        faults.cut (sieve.run (.ofBytes (faults.processed input)) .unlimited) ∧
      (sieve.run (faults.source pieces) faults.sink).output.toList <+:
        (sieve.run (.ofBytes input) .unlimited).output.toList := by
  have hclean (bytes : List UInt8) : sieve.run (.ofBytes bytes) .unlimited =
      finish ((Stream.physicalLines bytes).foldlM sieve.processLine
        (Session.start .unlimited)) := by
    rw [Source.ofBytes, run_eq_finish, List.flatten_singleton]
  have hrun : sieve.run (faults.source pieces) faults.sink =
      faults.cut (sieve.run (.ofBytes (faults.processed input)) .unlimited) := by
    rw [run_eq_ending sieve faults h, hclean]
    exact ending_receive faults fun s hs => free_of_foldlM_processLine Sink.free_unlimited hs
  refine ⟨hrun, ?_⟩
  obtain ⟨more, hlines⟩ := exists_physicalLines_processed faults input
  rw [hrun, hclean input, hlines]
  refine (output_cut_isPrefix faults _).trans ?_
  rw [hclean]
  exact output_finish_isPrefix sieve _ _ _

/-- A sieve that skips lines without an answer. -/
def lenient : Sieve := ⟨⟨⟨"x", [⟨some "x", []⟩]⟩, .equal, "1"⟩, true⟩

/-- Reading fails inside the last line, and there is room for one copy and a half. -/
def interruption : Faults :=
  ⟨some (24, "read failed"), some (11, "write failed"), some "flush failed"⟩

/-- Two documents with a line between them that holds none, and a third one. -/
def interrupted : List UInt8 :=
  Utf8.bytes "\x7b\"x\":1\x7d\n?\n \x7b\"x\": 1\x7d\r\n\x7b\"x\":1\x7d\n"

/-- What is read of it, in two pieces. -/
def interruptedPieces : List (List UInt8) :=
  [Utf8.bytes "\x7b\"x\"", Utf8.bytes ":1\x7d\n?\n \x7b\"x\": 1\x7d\r\n\x7b\"x"]

/-- The line without a document is skipped, but a fault never is: the run ends where there
is no more room, inside the second copy and before reading fails. -/
theorem run_interrupted :
    interruptedPieces.flatten = interruption.delivered interrupted ∧
      lenient.run (interruption.source interruptedPieces) interruption.sink =
        ⟨.error (.io "write failed"), (Utf8.bytes "\x7b\"x\":1\x7d\n\x7b\"x").toArray⟩ := by
  have hpieces : interruptedPieces.flatten = interruption.delivered interrupted := by
    decide +kernel
  have hprocessed : interruption.processed interrupted =
      Utf8.bytes "\x7b\"x\":1\x7d\n?\n \x7b\"x\": 1\x7d\r\n" := by decide +kernel
  have hclean : (lenient.run (.ofBytes (interruption.processed interrupted)) .unlimited).output =
      (Utf8.bytes "\x7b\"x\":1\x7d\n\x7b\"x\":1\x7d\n").toArray := by
    rw [hprocessed]
    decide +kernel
  obtain ⟨hcut, -⟩ := lenient.run_eq_cut interruption interrupted interruptedPieces hpieces
  refine ⟨hpieces, ?_⟩
  rw [hcut, Faults.cut, hclean]
  rfl

end Sieve

end JsonSieve
