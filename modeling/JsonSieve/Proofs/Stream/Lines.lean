import JsonSieve.Stream.Session

/-!
# A run is a walk over lines

A run sees bytes, in pieces, and keeps the bytes of a line that is not complete
(`JsonSieve.Session.pending`). Its input, though, is a list of lines: it is cut after
each newline, and the last line may lack one (`JsonSieve.Stream.physicalLines`).
`JsonSieve.Sieve.run_eq_finish` takes the bytes and the pieces away: a run processes
the lines of its input one after the other and then flushes the sink.

What carries the induction over the bytes is that the pending bytes are those of the
line being read: the lines still to come are the lines of the pending bytes followed
by the rest of the input, and there is no newline among the pending ones.
-/

namespace JsonSieve

namespace Stream

/-- **The physical lines of an input**: it is cut after each byte `0x0A`. -/
def physicalLines : List UInt8 → List (List UInt8)
  | [] => []
  | b :: rest =>
    if b = 0x0A then [b] :: physicalLines rest
    else
      match physicalLines rest with
      | [] => [[b]]
      | line :: lines => (b :: line) :: lines

theorem physicalLines_cons (b : UInt8) (rest : List UInt8) :
    physicalLines (b :: rest) =
      if b = Ascii.newline then [b] :: physicalLines rest
      else match physicalLines rest with
        | [] => [[b]]
        | line :: lines => (b :: line) :: lines := rfl

/-- A newline ends the first line. -/
theorem physicalLines_append_newline {line : List UInt8} (h : Ascii.newline ∉ line)
    (rest : List UInt8) :
    physicalLines (line ++ Ascii.newline :: rest) =
      (line ++ [Ascii.newline]) :: physicalLines rest := by
  induction line with
  | nil => rw [List.nil_append, physicalLines_cons, if_pos rfl, List.nil_append]
  | cons b line ih =>
    rw [List.mem_cons, not_or] at h
    rw [List.cons_append, physicalLines_cons, if_neg (Ne.symm h.1), ih h.2]
    rfl

/-- Without a newline there is one line. -/
theorem physicalLines_of_not_mem {line : List UInt8} (hne : line ≠ []) (h : Ascii.newline ∉ line) :
    physicalLines line = [line] := by
  induction line with
  | nil => exact absurd rfl hne
  | cons b line ih =>
    rw [List.mem_cons, not_or] at h
    rw [physicalLines_cons, if_neg (Ne.symm h.1)]
    cases line with
    | nil => rfl
    | cons b' line => rw [ih (List.cons_ne_nil _ _) h.2]

/-- **Induction over the lines of an input**: there is none, or there is a last one without a
newline, or there is one that ends with its newline before others. -/
@[elab_as_elim]
theorem lines_induction {motive : List UInt8 → Prop} (nil : motive [])
    (last : ∀ line, line ≠ [] → Ascii.newline ∉ line → motive line)
    (cons : ∀ line rest, Ascii.newline ∉ line → motive rest →
      motive (line ++ Ascii.newline :: rest))
    (input : List UInt8) : motive input := by
  by_cases hnl : Ascii.newline ∈ input
  · obtain ⟨line, rest, hinput, hline⟩ := List.eq_append_cons_of_mem hnl
    have hlt : rest.length < input.length := by
      rw [hinput, List.length_append, List.length_cons]
      omega
    exact hinput ▸ cons line rest hline (lines_induction nil last cons rest)
  · by_cases hnil : input = []
    · exact hnil ▸ nil
    · exact last input hnil hnl
termination_by input.length

/-- **Lines that are complete**: each of them ends with its newline. -/
def IsComplete (input : List UInt8) : Prop :=
  input = [] ∨ input.getLast? = some Ascii.newline

theorem IsComplete.of_append {line rest : List UInt8}
    (h : IsComplete (line ++ Ascii.newline :: rest)) : IsComplete rest := by
  cases rest with
  | nil => exact Or.inl rfl
  | cons b rest =>
    refine Or.inr ?_
    rcases h with h | h
    · cases List.append_eq_nil_iff.mp h |>.2
    · simpa [List.getLast?_append] using h

theorem IsComplete.not_of_not_mem {line : List UInt8} (hne : line ≠ [])
    (hnl : Ascii.newline ∉ line) : ¬IsComplete line := by
  rintro (h | h)
  · exact hne h
  · exact hnl (List.mem_of_getLast? h)

/-- Complete lines are lines by themselves, -/
theorem physicalLines_append {part : List UInt8} (h : IsComplete part) (rest : List UInt8) :
    physicalLines (part ++ rest) = physicalLines part ++ physicalLines rest := by
  induction part using lines_induction with
  | nil => rfl
  | last line hne hnl => exact absurd h (IsComplete.not_of_not_mem hne hnl)
  | cons line part hnl ih =>
    rw [List.append_assoc, List.cons_append, physicalLines_append_newline hnl,
      physicalLines_append_newline hnl, ih h.of_append, List.cons_append]

/-- and there are as many of them as there are newlines. -/
theorem length_physicalLines {input : List UInt8} (h : IsComplete input) :
    (physicalLines input).length = input.count Ascii.newline := by
  induction input using lines_induction with
  | nil => rfl
  | last line hne hnl => exact absurd h (IsComplete.not_of_not_mem hne hnl)
  | cons line rest hnl ih =>
    rw [physicalLines_append_newline hnl, List.length_cons, ih h.of_append, List.count_append,
      List.count_eq_zero_of_not_mem hnl, List.count_cons_self, Nat.zero_add]

/-- **Any selection of the lines of an input** is cut into the same lines again. -/
theorem physicalLines_flatten_filter (p : List UInt8 → Bool) (input : List UInt8) :
    physicalLines ((physicalLines input).filter p).flatten = (physicalLines input).filter p := by
  induction input using lines_induction with
  | nil => rfl
  | last line hne hnl =>
    rw [physicalLines_of_not_mem hne hnl, List.filter_cons]
    cases p line with
    | true => simpa using physicalLines_of_not_mem hne hnl
    | false => rfl
  | cons line rest hnl ih =>
    rw [physicalLines_append_newline hnl, List.filter_cons]
    split
    · rw [List.flatten_cons, List.append_assoc, List.singleton_append,
        physicalLines_append_newline hnl, ih]
    · exact ih

end Stream

namespace Sieve

/-- **What every step keeps** is kept by all of them together. -/
theorem foldlM_keeps {α : Type} {P : Session → Prop} {step : Session → α → Except Stop Session}
    (hstep : ∀ {s t : Session} {a : α}, P s → step s a = .ok t → P t) {s t : Session}
    {items : List α} (hs : P s) (h : items.foldlM step s = .ok t) : P t := by
  induction items generalizing s with
  | nil =>
    cases h
    exact hs
  | cons a items ih =>
    rw [List.foldlM_cons] at h
    cases ha : step s a with
    | error stop =>
      rw [ha] at h
      cases h
    | ok u =>
      rw [ha] at h
      exact ih (hstep hs ha) h

/-! ### Processing leaves the pending bytes alone -/

theorem pending_emit {s t : Session} {d : Document} (h : emit s d = .ok t) :
    t.pending = s.pending := by
  unfold emit at h
  split at h
  · cases h
  · cases h
    rfl

theorem pending_processContent {sieve : Sieve} {s t : Session} {content : List UInt8}
    (h : sieve.processContent s content = .ok t) : t.pending = s.pending := by
  unfold processContent at h
  split at h
  · exact pending_emit h
  · cases h
    rfl
  · split at h
    · cases h
      rfl
    · cases h

theorem pending_processLine {sieve : Sieve} {s t : Session} {line : List UInt8}
    (h : sieve.processLine s line = .ok t) : t.pending = s.pending := by
  simp only [processLine] at h
  split at h
  · cases h
    rfl
  · exact (pending_processContent h).trans rfl

/-! ### From bytes to lines -/

/-- The end of a run whose lines have all been processed, or one of which stopped it. -/
def finish : Except Stop Session → Outcome
  | .error stop => stop.outcome
  | .ok s => flush s

/-- What the rest of the input does to a run. -/
def conclude (sieve : Sieve) (s : Session) (input : List UInt8) : Outcome :=
  match sieve.feed s input with
  | .error stop => stop.outcome
  | .ok s => sieve.close s

theorem conclude_nil (sieve : Sieve) (s : Session) : sieve.conclude s [] = sieve.close s := rfl

theorem conclude_cons (sieve : Sieve) (s : Session) (b : UInt8) (rest : List UInt8) :
    sieve.conclude s (b :: rest) = match sieve.push s b with
      | .error stop => stop.outcome
      | .ok s => sieve.conclude s rest := by
  rw [conclude, feed, List.foldlM_cons]
  cases sieve.push s b <;> rfl

theorem conclude_append (sieve : Sieve) (s : Session) (piece rest : List UInt8) :
    sieve.conclude s (piece ++ rest) = match sieve.feed s piece with
      | .error stop => stop.outcome
      | .ok s => sieve.conclude s rest := by
  rw [conclude, feed_append]
  cases sieve.feed s piece <;> rfl

/-- **The rest of the input is the rest of the lines**, the first of which begins with
the pending bytes. -/
theorem conclude_eq_finish (sieve : Sieve) (s : Session) (input : List UInt8)
    (h : Ascii.newline ∉ s.pending) :
    sieve.conclude s input =
      finish ((Stream.physicalLines (s.pending.reverse ++ input)).foldlM sieve.processLine
        { s with pending := [] }) := by
  induction input generalizing s with
  | nil =>
    rw [List.append_nil, conclude_nil, close, lastLine]
    -- a last line without a newline is what is pending
    by_cases hp : s.pending = []
    · have hs : { s with pending := [] } = s := by rw [← hp]
      rw [hp, hs]
      rfl
    · have hnl : Ascii.newline ∉ s.pending.reverse := by rwa [List.mem_reverse]
      have hempty : ¬s.pending.isEmpty = true := by rwa [List.isEmpty_iff]
      rw [if_neg hempty,
        Stream.physicalLines_of_not_mem (by rwa [Ne, List.reverse_eq_nil_iff]) hnl,
        List.foldlM_cons]
      cases sieve.processLine { s with pending := [] } s.pending.reverse <;> rfl
  | cons b rest ih =>
    rw [conclude_cons, push]
    by_cases hb : b = Ascii.newline
    · subst hb
      have hnl : Ascii.newline ∉ s.pending.reverse := by rwa [List.mem_reverse]
      rw [if_pos rfl, List.reverse_cons, Stream.physicalLines_append_newline hnl, List.foldlM_cons]
      cases ht : sieve.processLine { s with pending := [] }
          (s.pending.reverse ++ [Ascii.newline]) with
      | error stop => rfl
      | ok t =>
        -- the line is complete, so that nothing is pending any more
        have hp : t.pending = [] := pending_processLine ht
        have hs : { t with pending := [] } = t := by rw [← hp]
        have := ih t (by simp [hp])
        rw [hp, hs] at this
        exact this
    · -- the byte goes on with the line
      rw [if_neg hb]
      have := ih { s with pending := b :: s.pending } (by simp [h, Ne.symm hb])
      simpa using this

/-- **A run processes the lines of its input**, in whatever pieces it arrives. -/
theorem run_eq_finish (sieve : Sieve) (pieces : List (List UInt8)) (sink : Sink) :
    sieve.run ⟨pieces, none⟩ sink =
      finish ((Stream.physicalLines pieces.flatten).foldlM sieve.processLine
        (Session.start sink)) := by
  have h := sieve.conclude_eq_finish (Session.start sink) pieces.flatten List.not_mem_nil
  rw [conclude] at h
  rw [run, foldlM_feed]
  exact h

end Sieve

end JsonSieve
