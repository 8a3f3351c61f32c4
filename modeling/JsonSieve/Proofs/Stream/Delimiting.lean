import JsonSieve.Proofs.Stream.Again

/-!
# The output is a list of lines

Whatever the documents of an input hold, the output of a run is UTF-8 and falls into lines,
one for each line of the input that has matched (`JsonSieve.Sieve.run_delimited`). Below the
space there is no byte in it but the newlines at the ends of these lines
(`JsonSieve.Stream.Delimited`), so that no reader can find more of them.

This is so for any documents that are copied one after the other
(`JsonSieve.Stream.delimited_copies`), because no control character is written. What is
copied is told by the result: all documents that satisfy the condition, or those before the
line that has stopped the run (`JsonSieve.Outcome.reached`).
-/

namespace JsonSieve

namespace Stream

/-! ### Lines of documents -/

/-- **Output that is newline-delimited**, with so many lines. -/
structure Delimited (output : List UInt8) (lines : Nat) : Prop where
  /-- It is the UTF-8 form of a text. -/
  isUtf8 : output.toByteArray.IsValidUTF8
  /-- It is empty or ends with a newline. -/
  isComplete : output = [] ∨ output.getLast? = some Ascii.newline
  /-- There are no bytes below the space but newlines. -/
  eq_newline : ∀ b ∈ output, b.toNat < 0x20 → b = Ascii.newline
  /-- No line is blank. -/
  not_blank : ∀ line ∈ physicalLines output, isBlankLine (content line) = false
  /-- There are so many newlines as lines. -/
  count_newline : output.count Ascii.newline = lines

theorem isComplete_flatMap_copy (ds : List Document) : IsComplete (ds.flatMap copy) := by
  rcases ds.eq_nil_or_concat with rfl | ⟨ds, d, rfl⟩
  · exact Or.inl rfl
  · refine Or.inr ?_
    rw [List.concat_eq_append, List.flatMap_append, List.flatMap_singleton, copy_eq,
      ← List.append_assoc, List.getLast?_concat]

theorem eq_newline_of_mem_copy {d : Document} {b : UInt8} (h : b ∈ copy d) (hb : b.toNat < 0x20) :
    b = Ascii.newline := by
  rw [copy_eq] at h
  rcases List.mem_append.mp h with h | h
  · exact absurd h (d.not_mem_encode_toChars hb)
  · exact List.mem_singleton.mp h

/-- **Copies are newline-delimited**, whatever the documents hold. -/
theorem delimited_copies (ds : List Document) : Delimited (ds.flatMap copy) ds.length where
  isUtf8 := by
    have htext : ds.flatMap copy = Utf8.encode (ds.flatMap fun d => d.toChars ++ ['\n']) := by
      rw [funext copy_eq_encode]
      exact List.flatMap_assoc.symm
    rw [htext]
    exact ByteArray.isValidUTF8_utf8Encode
  isComplete := isComplete_flatMap_copy ds
  eq_newline := by
    intro b hb
    obtain ⟨d, -, hd⟩ := List.mem_flatMap.mp hb
    exact eq_newline_of_mem_copy hd
  not_blank := by
    rw [physicalLines_flatMap_copy]
    intro line hline
    obtain ⟨d, -, rfl⟩ := List.mem_map.mp hline
    exact Bool.eq_false_iff.mpr (not_isBlankLine_copy d)
  count_newline := by
    rw [← length_physicalLines (isComplete_flatMap_copy ds), physicalLines_flatMap_copy,
      List.length_map]

/-- Control characters of a key and of a string stay within their line. -/
example : copy (.object [("\n\x00", .string "\r\n\t")]) =
    Utf8.bytes "\x7b\"\\n\\u0000\":\"\\r\\n\\t\"\x7d\n" := by
  decide +kernel

/-! ### Lines before another one -/

theorem pairwise_entriesFrom (number : Nat) (lines : List (List UInt8)) :
    (entriesFrom number lines).Pairwise fun e f => e.number < f.number := by
  induction lines generalizing number with
  | nil => exact List.Pairwise.nil
  | cons line lines ih =>
    by_cases hblank : isBlankLine (content line) = true
    · rw [entriesFrom_cons_blank hblank]
      exact ih (number + 1)
    · rw [entriesFrom_cons hblank]
      refine List.pairwise_cons.mpr ⟨fun e he => ?_, ih (number + 1)⟩
      exact (number_of_mem_entriesFrom he).1

/-- The entries before the first fault are those with smaller numbers. -/
theorem takeWhile_eq_filter {c : Condition} {es : List Entry}
    (hes : es.Pairwise fun e f => e.number < f.number) {number : Nat} {cause : EvaluationError}
    (h : es.findSome? (Entry.fault? c) = some (.line number cause)) :
    (es.takeWhile fun e => (e.fault? c).isNone) = es.filter fun e => e.number < number := by
  have hnumber : ∀ {e : Entry}, e.fault? c = some (.line number cause) → e.number = number := by
    intro e he
    obtain ⟨cause', hcause⟩ := Entry.exists_cause_of_fault? he
    exact (StreamError.line.inj hcause).1.symm
  induction es with
  | nil => rfl
  | cons e es ih =>
    obtain ⟨hlt, hpairs⟩ := List.pairwise_cons.mp hes
    rw [List.findSome?_cons] at h
    cases hfault : e.fault? c with
    | none =>
      rw [hfault] at h
      obtain ⟨f, hf, hff⟩ := List.exists_of_findSome?_eq_some h
      have hbefore : e.number < number := hnumber hff ▸ hlt f hf
      rw [List.takeWhile_cons_of_pos (by rw [hfault]; rfl),
        List.filter_cons_of_pos (by simpa using hbefore), ih hpairs h]
    | some error =>
      -- the first fault, and all other entries are later
      rw [hfault] at h
      obtain rfl : error = .line number cause := Option.some.inj h
      have hlater : es.filter (fun f => f.number < number) = [] := by
        refine List.filter_eq_nil_iff.mpr fun f hf => ?_
        have hafter := hlt f hf
        rw [hnumber hfault] at hafter
        simpa using hafter.le
      rw [List.takeWhile_cons_of_neg (by simp [hfault]),
        List.filter_cons_of_neg (by simp [hnumber hfault]), hlater]

end Stream

/-! ### What a run has come to -/

/-- **The entries that a run has an answer for**: all of them, or those before the line that has
stopped it. -/
def Outcome.reached (outcome : Outcome) (es : List Stream.Entry) : List Stream.Entry :=
  match outcome.result with
  | .error (.line number _) => es.filter fun e => e.number < number
  | _ => es

namespace Sieve

variable (sieve : Sieve)

/-- **The output holds the copies of what has been reached.** -/
theorem output_meaning (input : List UInt8) :
    (sieve.meaning input).output =
      (Stream.copies sieve.condition
        ((sieve.meaning input).reached (Stream.entries input))).toArray := by
  have hpairs : (Stream.entries input).Pairwise fun e f => e.number < f.number :=
    Stream.pairwise_entriesFrom 1 _
  rw [meaning, meaningOf]
  split
  · rfl
  · split
    · rfl
    · rename_i error hfault
      obtain ⟨e, -, he⟩ := List.exists_of_findSome?_eq_some hfault
      obtain ⟨cause, rfl⟩ := Stream.Entry.exists_cause_of_fault? he
      exact congrArg (fun es => (Stream.copies sieve.condition es).toArray)
        (Stream.takeWhile_eq_filter hpairs hfault)

/-- A run that succeeds has counted the documents that it has reached and copied. -/
theorem matched_meaning {input : List UInt8} {stats : Stats}
    (h : (sieve.meaning input).result = .ok stats) :
    stats.matched = (((sieve.meaning input).reached (Stream.entries input)).filterMap
      (Stream.Entry.copied? sieve.condition)).length := by
  have hreached : (sieve.meaning input).reached (Stream.entries input) = Stream.entries input := by
    rw [Outcome.reached, h]
  have hmeaning : sieve.meaning input = ⟨.ok stats, (sieve.meaning input).output⟩ := by
    rw [← h]
  rw [hreached]
  exact (eq_of_meaning hmeaning).1

/-- **The output is newline-delimited**, whatever the documents hold, with one line for each
line of the input that has matched: all of those if the run succeeds, which it has counted
then, or those before the line that has stopped it, and nothing else stops it. -/
theorem run_delimited (pieces : List (List UInt8)) :
    Stream.Delimited (sieve.run ⟨pieces, none⟩ .unlimited).output.toList
        (((sieve.run ⟨pieces, none⟩ .unlimited).reached (Stream.entries pieces.flatten)).countP
          fun e => (e.copied? sieve.condition).isSome) ∧
      match (sieve.run ⟨pieces, none⟩ .unlimited).result with
      | .ok stats =>
        stats.matched = (sieve.run ⟨pieces, none⟩ .unlimited).output.toList.count Ascii.newline
      | .error error => ∃ number cause, error = .line number cause := by
  rw [run_eq_meaning, ← List.length_filterMap_eq_countP, sieve.output_meaning, List.toList_toArray]
  have hdelimited := Stream.delimited_copies
    (((sieve.meaning pieces.flatten).reached (Stream.entries pieces.flatten)).filterMap
      (Stream.Entry.copied? sieve.condition))
  refine ⟨hdelimited, ?_⟩
  cases hresult : (sieve.meaning pieces.flatten).result with
  | ok stats => exact (sieve.matched_meaning hresult).trans hdelimited.count_newline.symm
  | error error => exact exists_line_of_meaningOf _ hresult

end Sieve

end JsonSieve
