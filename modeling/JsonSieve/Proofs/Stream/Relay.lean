import JsonSieve.Stream.Relay
import JsonSieve.Proofs.Stream.Meaning

/-!
# Nothing that is held back is lost

A program passes its output on in batches (`JsonSieve.Sieve.relayAll`): what a run has
written is held back until there is enough of it, and the rest is passed on at the end. All
that it passes on is the output of the run, and it ends as the run does
(`JsonSieve.Sieve.relayAll_eq_run`), wherever the input is cut into pieces and however the
run ends.

The sink of the session is emptied in between, so that the sessions of the two runs differ.
What the rest of the input does, though, depends on what was written before only in that
its output comes after that (`JsonSieve.Sieve.conclude_eq_after`). This holds of sessions
between two pieces of the input, and being one of them (`JsonSieve.Session.IsReady`) is
the invariant of the induction over the pieces.
-/

namespace JsonSieve

/-- **A session between two pieces of the input**: the line that is being read is not complete,
and the sink does not fail. -/
structure Session.IsReady (s : Session) : Prop where
  /-- No newline is pending. -/
  pending : Ascii.newline ∉ s.pending
  /-- The sink does not fail. -/
  sink : s.sink.Free

namespace Session.IsReady

variable {sieve : Sieve} {s t : Session}

theorem start : (Session.start .unlimited).IsReady := ⟨List.not_mem_nil, Sink.free_unlimited⟩

/-- The next byte keeps a session ready, -/
theorem push (hs : s.IsReady) {b : UInt8} (h : sieve.push s b = .ok t) : t.IsReady := by
  simp only [Sieve.push] at h
  split at h
  · have hpending : t.pending = [] := Sieve.pending_processLine h
    have hsink : ({ s with pending := [] } : Session).sink.Free := hs.sink
    exact ⟨by simp [hpending], Sieve.free_of_processLine hsink h⟩
  · rename_i hb
    cases h
    exact ⟨by simpa [Ne.symm hb] using hs.pending, hs.sink⟩

/-- and so do all bytes of a piece. -/
theorem feed (hs : s.IsReady) {piece : List UInt8} (h : sieve.feed s piece = .ok t) :
    t.IsReady :=
  Sieve.foldlM_keeps (P := IsReady) (fun hs h => hs.push h) hs h

/-- Passing output on does not make it fail. -/
theorem release (hs : s.IsReady) : s.release.2.IsReady := by
  rw [Session.release]
  split
  · exact hs
  · exact ⟨hs.pending, hs.sink.room, hs.sink.flush⟩

end Session.IsReady

namespace Sieve

variable {s : Session} (sieve : Sieve)

/-- **What the rest of the input does** is what its entries mean, after what the session has
counted and written. -/
theorem conclude_eq_after (hs : s.IsReady) (input : List UInt8) :
    sieve.conclude s input =
      (sieve.meaningOf (Stream.entriesFrom (s.lines + 1)
        (Stream.physicalLines (s.pending.reverse ++ input)))).after s.stats s.sink.accepted := by
  rw [conclude_eq_finish _ _ _ hs.pending]
  exact finish_foldlM_processLine _ { s with pending := [] } hs.sink _

/-- What is passed on comes before what is written later. -/
theorem after_conclude_release (hs : s.IsReady) (input : List UInt8) :
    (sieve.conclude s.release.2 input).after .zero s.release.1 = sieve.conclude s input := by
  rw [conclude_eq_after sieve hs, conclude_eq_after sieve hs.release, Outcome.after_after,
    Session.release]
  split
  · simp
  · simp [Sink.drain]

/-- **Output that is held back comes out** in the end, and before anything else. -/
theorem relayAll_eq_conclude (hs : s.IsReady) (pieces : List (List UInt8)) :
    sieve.relayAll s pieces = sieve.conclude s pieces.flatten := by
  induction pieces generalizing s with
  | nil => rfl
  | cons piece rest ih =>
    rw [relayAll, relay, List.flatten_cons, conclude_append]
    cases hfeed : sieve.feed s piece with
    | error stop => rfl
    | ok t =>
      -- what the rest passes on comes after what is passed on now
      have ht : t.IsReady := hs.feed hfeed
      have hrest : (sieve.relayAll t.release.2 rest).after .zero t.release.1 =
          sieve.conclude t rest.flatten := by
        rw [ih ht.release, sieve.after_conclude_release ht]
      exact (Outcome.after_zero_stats _ _).symm.trans hrest

/-- **A run whose output is held back is the run**, in whatever pieces its input arrives. -/
theorem relayAll_eq_run (pieces : List (List UInt8)) :
    sieve.relayAll (.start .unlimited) pieces = sieve.run (.ofBytes pieces.flatten) .unlimited := by
  rw [sieve.relayAll_eq_conclude .start, conclude_eq_after sieve .start, Source.ofBytes,
    run_eq_meaning, List.flatten_singleton]
  exact Outcome.after_zero _

end Sieve

end JsonSieve
