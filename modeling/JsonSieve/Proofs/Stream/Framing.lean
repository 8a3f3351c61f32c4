import JsonSieve.Proofs.Stream.Concatenation

/-!
# The framing of lines

How lines are told apart makes no difference to a run (`JsonSieve.Sieve.run_framing`):

* a newline may be added at the end of the input;
* every newline may be preceded by a carriage return, if none is yet;
* a line of blanks may be put in before any line, or after all of them, and then later lines
  have later numbers (`JsonSieve.Outcome.shift`).

The first two leave the contents of all lines as they are, up to a last line that is blank,
and a run knows nothing else about lines. The third one is said by two cuts, one on either
side of the new line: the numbers of the lines before the cut are at most as many as there
are newlines, and those after it are all greater.
-/

namespace JsonSieve

/-! ### The same contents -/

namespace Stream

theorem content_append_newline (line : List UInt8) :
    content (line ++ [Ascii.newline]) = dropEnd Ascii.carriageReturn line := by
  rw [content, dropEnd_append_self]

theorem content_of_not_mem {line : List UInt8} (h : Ascii.newline ∉ line) :
    content line = dropEnd Ascii.carriageReturn line := by
  rw [content, dropEnd_of_getLast?_ne fun hlast => h (List.mem_of_getLast? hlast)]

theorem entriesFrom_congr {lines others : List (List UInt8)}
    (h : lines.map content = others.map content) (number : Nat) :
    entriesFrom number lines = entriesFrom number others := by
  rw [entriesFrom_eq, entriesFrom_eq, h]

/-- A newline at the end completes the last line, or is a blank line. -/
theorem entriesFrom_append_newline (number : Nat) (input : List UInt8) :
    entriesFrom number (physicalLines (input ++ [Ascii.newline])) =
      entriesFrom number (physicalLines input) := by
  induction input using lines_induction generalizing number with
  | nil => exact entriesFrom_cons_blank rfl number []
  | last line hne hnl =>
    rw [physicalLines_append_newline hnl [], physicalLines_of_not_mem hne hnl]
    refine entriesFrom_congr ?_ number
    rw [List.map_cons, List.map_singleton, content_append_newline, content_of_not_mem hnl]
    rfl
  | cons line rest hnl ih =>
    rw [List.append_assoc, List.cons_append, physicalLines_append_newline hnl,
      physicalLines_append_newline hnl]
    have hsplit : ∀ lines, entriesFrom number ((line ++ [Ascii.newline]) :: lines) =
        entriesFrom number [line ++ [Ascii.newline]] ++ entriesFrom (number + 1) lines :=
      fun lines => entriesFrom_append number [line ++ [Ascii.newline]] lines
    rw [hsplit (physicalLines (rest ++ [Ascii.newline])), hsplit (physicalLines rest), ih]

/-- An input with a carriage return before each newline. -/
def withReturns (input : List UInt8) : List UInt8 :=
  input.flatMap fun b =>
    if b = Ascii.newline then [Ascii.carriageReturn, Ascii.newline] else [b]

theorem withReturns_of_not_mem {line : List UInt8} (h : Ascii.newline ∉ line) :
    withReturns line = line := by
  induction line with
  | nil => rfl
  | cons b line ih =>
    rw [List.mem_cons, not_or] at h
    rw [withReturns, List.flatMap_cons, if_neg (Ne.symm h.1)]
    exact congrArg (b :: ·) (ih h.2)

theorem withReturns_append_newline {line : List UInt8} (h : Ascii.newline ∉ line)
    (rest : List UInt8) :
    withReturns (line ++ Ascii.newline :: rest) =
      (line ++ [Ascii.carriageReturn]) ++ Ascii.newline :: withReturns rest := by
  have hline := withReturns_of_not_mem h
  rw [withReturns] at hline ⊢
  rw [List.flatMap_append, hline, List.flatMap_cons, if_pos rfl, List.append_assoc]
  rfl

/-- **Carriage returns are taken off again**, if there was none before a newline. -/
theorem map_content_withReturns {input : List UInt8}
    (h : ¬[Ascii.carriageReturn, Ascii.newline] <:+: input) :
    (physicalLines (withReturns input)).map content = (physicalLines input).map content := by
  induction input using lines_induction with
  | nil => rfl
  | last line hne hnl => rw [withReturns_of_not_mem hnl]
  | cons line rest hnl ih =>
    have hreturn : line.getLast? ≠ some Ascii.carriageReturn := by
      intro hlast
      obtain ⟨start, rfl⟩ := List.getLast?_eq_some_iff.mp hlast
      exact h ⟨start, rest, by simp⟩
    have hnl' : Ascii.newline ∉ line ++ [Ascii.carriageReturn] := by
      rw [List.mem_append, List.mem_singleton]
      exact fun hmem => hmem.elim hnl (by decide)
    have hrest : ¬[Ascii.carriageReturn, Ascii.newline] <:+: rest := fun hpart =>
      h (hpart.trans ((List.suffix_cons _ rest).trans (List.suffix_append line _)).isInfix)
    rw [withReturns_append_newline hnl, physicalLines_append_newline hnl',
      physicalLines_append_newline hnl, List.map_cons, List.map_cons, ih hrest,
      content_append_newline, content_append_newline, dropEnd_append_self,
      dropEnd_of_getLast?_ne hreturn]

end Stream

/-- The error of a line, if a line is put in after `k` others. -/
def StreamError.shift (k : Nat) : StreamError → StreamError
  | line number error => line (if k < number then number + 1 else number) error
  | error => error

/-- The outcome of a run, if a line is put in after `k` others. -/
def Outcome.shift (k : Nat) (outcome : Outcome) : Outcome :=
  ⟨outcome.result.mapError (StreamError.shift k), outcome.output⟩

/-- If the first outcome is not shifted, the second one is. -/
theorem Outcome.shift_andThen {k : Nat} {first : Outcome}
    (h : ∀ error, first.result = .error error → error.shift k = error) (second : Outcome) :
    (first.andThen second).shift k = first.andThen (second.shift k) := by
  rcases first with ⟨error | stats, output⟩
  · exact congrArg (fun e => Outcome.mk (.error e) output) (h error rfl)
  · rcases second with ⟨_ | _, _⟩ <;> rfl

namespace Sieve

variable (sieve : Sieve)

/-- The line that stops a run is one of the input. -/
theorem exists_line_of_meaning {input : List UInt8} {error : StreamError}
    (h : (sieve.meaning input).result = .error error) :
    ∃ number cause, error = .line number cause ∧ 1 ≤ number ∧
      number ≤ (Stream.physicalLines input).length := by
  obtain ⟨e, he, cause, rfl⟩ := exists_entry_of_meaningOf _ h
  obtain ⟨hlow, hhigh⟩ := Stream.number_of_mem_entriesFrom he
  exact ⟨e.number, cause, rfl, hlow, by omega⟩

/-! ### A blank line put in -/

/-- A blank line makes all others later by one. -/
theorem meaning_blank {blank : List UInt8} (hnl : Ascii.newline ∉ blank)
    (hblank : Stream.isBlankLine blank = true) (rest : List UInt8) :
    sieve.meaning (blank ++ Ascii.newline :: rest) = (sieve.meaning rest).renumber 1 := by
  have hcontent : Stream.isBlankLine (Stream.content (blank ++ [Ascii.newline])) = true := by
    rw [Stream.content_append_newline, Stream.isBlankLine, List.all_eq_true]
    exact fun b hb => List.all_eq_true.mp hblank b ((Stream.dropEnd_sublist _ _).subset hb)
  rw [meaning, Stream.entries, Stream.physicalLines_append_newline hnl,
    Stream.entriesFrom_cons_blank hcontent, Stream.entriesFrom_add 1 1, meaningOf_renumber]
  rfl

/-- Before the new line nothing is shifted, -/
theorem shift_meaning {input : List UInt8} {error : StreamError}
    (h : (sieve.meaning input).result = .error error) (hcomplete : Stream.IsComplete input) :
    error.shift (input.count Ascii.newline) = error := by
  obtain ⟨number, cause, rfl, -, hle⟩ := sieve.exists_line_of_meaning h
  rw [Stream.length_physicalLines hcomplete] at hle
  rw [StreamError.shift, if_neg (Nat.not_lt_of_le hle)]

/-- and after it everything is. -/
theorem shift_renumber_meaning (k : Nat) (input : List UInt8) :
    ((sieve.meaning input).renumber k).shift k = ((sieve.meaning input).renumber 1).renumber k := by
  cases h : (sieve.meaning input).result with
  | ok stats => simp [Outcome.renumber, Outcome.shift, h, Except.mapError]
  | error error =>
    obtain ⟨number, cause, rfl, hpos, -⟩ := sieve.exists_line_of_meaning h
    have hlt : k < number + k := by omega
    simp [Outcome.renumber, Outcome.shift, h, Except.mapError, StreamError.renumber,
      StreamError.shift, hlt, Nat.add_right_comm]

/-- **A blank line may be put in** after any newline and at the beginning. -/
theorem meaning_insert {before blank : List UInt8} (hbefore : Stream.IsComplete before)
    (hnl : Ascii.newline ∉ blank) (hblank : Stream.isBlankLine blank = true)
    (after : List UInt8) :
    sieve.meaning (before ++ (blank ++ Ascii.newline :: after)) =
      (sieve.meaning (before ++ after)).shift (before.count Ascii.newline) := by
  rw [sieve.meaning_append hbefore, sieve.meaning_append hbefore, sieve.meaning_blank hnl hblank,
    Outcome.shift_andThen fun error h => sieve.shift_meaning h hbefore, shift_renumber_meaning]

/-! ### Runs -/

/-- The bytes of which a line without a document may consist. -/
def blanks : List UInt8 := [Ascii.tab, Ascii.formFeed, Ascii.carriageReturn, Ascii.space]

/-- **The framing of lines makes no difference**, in whatever pieces the input arrives. A
newline may be added at its end. If it has no carriage return before a newline, one may be put
before each of them. And a line of blanks may be put in before any line, or at the end if that
follows a newline, except that the error of a later line has a number greater by one. -/
theorem run_framing (pieces framed : List (List UInt8)) :
    (framed.flatten = pieces.flatten ++ [Ascii.newline] →
      sieve.run ⟨framed, none⟩ .unlimited = sieve.run ⟨pieces, none⟩ .unlimited) ∧
    (¬[Ascii.carriageReturn, Ascii.newline] <:+: pieces.flatten →
      framed.flatten = Stream.withReturns pieces.flatten →
      sieve.run ⟨framed, none⟩ .unlimited = sieve.run ⟨pieces, none⟩ .unlimited) ∧
    ∀ before blank after : List UInt8, pieces.flatten = before ++ after →
      (before = [] ∨ before.getLast? = some Ascii.newline) → (∀ b ∈ blank, b ∈ blanks) →
      framed.flatten = before ++ (blank ++ Ascii.newline :: after) →
      sieve.run ⟨framed, none⟩ .unlimited =
        (sieve.run ⟨pieces, none⟩ .unlimited).shift (before.count Ascii.newline) := by
  rw [run_eq_meaning, run_eq_meaning]
  refine ⟨fun hframed => ?_, fun hreturns hframed => ?_, ?_⟩
  · rw [hframed, meaning, meaning, Stream.entries, Stream.entries,
      Stream.entriesFrom_append_newline]
  · rw [hframed, meaning, meaning, Stream.entries, Stream.entries,
      Stream.entriesFrom_congr (Stream.map_content_withReturns hreturns)]
  · intro before blank after hpieces hbefore hblanks hframed
    have hnl : Ascii.newline ∉ blank := fun hmem => absurd (hblanks _ hmem) (by decide)
    have hblank : Stream.isBlankLine blank = true := by
      have hall : ∀ b ∈ blanks, Stream.isBlank b = true := List.all_eq_true.mp rfl
      exact List.all_eq_true.mpr fun b hb => hall b (hblanks b hb)
    rw [hframed, hpieces]
    exact sieve.meaning_insert hbefore hnl hblank after

/-- A blank line, a document that satisfies the condition, and a last line that holds none and
ends with a carriage return. -/
def loose : List UInt8 := Utf8.bytes "\n\x7b\"x\":1\x7d\n?\r"

/-- A blank line with one byte of each kind. -/
def blankLine : List UInt8 := [Ascii.space, Ascii.carriageReturn, Ascii.formFeed, Ascii.tab]

/-- The outcome if the last line is the one with this number. -/
def looseStopped (number : Nat) : Outcome :=
  ⟨.error (.line number (.unreadable ⟨.expectedValue, 1, 1⟩)),
    (Utf8.bytes "\x7b\"x\":1\x7d\n").toArray⟩

/-- The last line is the third one, also if it has a newline and all newlines have carriage
returns before them; and it is the fourth one with a blank line before it. -/
theorem run_framing_loose :
    strict.run ⟨[loose ++ [Ascii.newline]], none⟩ .unlimited = looseStopped 3 ∧
      strict.run ⟨[Stream.withReturns loose], none⟩ .unlimited = looseStopped 3 ∧
      strict.run ⟨[loose.take 9 ++ (blankLine ++ Ascii.newline :: loose.drop 9)], none⟩ .unlimited =
        looseStopped 4 := by
  have hrun : strict.run ⟨[loose], none⟩ .unlimited = looseStopped 3 := by decide +kernel
  have hreturns : ¬[Ascii.carriageReturn, Ascii.newline] <:+: [loose].flatten := by decide +kernel
  have hbefore : (loose.take 9).getLast? = some Ascii.newline := by decide +kernel
  have hblanks : ∀ b ∈ blankLine, b ∈ blanks := by decide +kernel
  have hcount : (loose.take 9).count Ascii.newline = 2 := by decide +kernel
  refine ⟨?_, ?_, ?_⟩
  · rw [(strict.run_framing [loose] _).1 (by rw [List.flatten_singleton, List.flatten_singleton]),
      hrun]
  · rw [(strict.run_framing [loose] _).2.1 hreturns
      (by rw [List.flatten_singleton, List.flatten_singleton]), hrun]
  · rw [(strict.run_framing [loose] _).2.2 (loose.take 9) blankLine (loose.drop 9)
      (by rw [List.flatten_singleton, List.take_append_drop]) (Or.inr hbefore) hblanks
      (by rw [List.flatten_singleton]), hrun, hcount]
    rfl

end Sieve

end JsonSieve
