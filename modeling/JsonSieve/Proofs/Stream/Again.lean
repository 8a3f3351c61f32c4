import JsonSieve.Proofs.Document.RoundTrip
import JsonSieve.Proofs.Stream.Meaning

/-!
# Output as input

What a run has written can be filtered again with the same condition, and everything
goes through unchanged (`JsonSieve.Sieve.run_again`). Two things have to be seen. Each
copy is one line, whose content is the written form of its document
(`JsonSieve.Stream.content_copy`): no control character is ever written, so that there is
no line break inside it and no carriage return at its end, and no document begins with a
blank. And this content is read as the document that was copied, which satisfies the
condition as it did before (`JsonSieve.Condition.evaluate_toChars`).

The second one is where doubles come in, which the reader may round to other doubles than
those that were written.
-/

namespace JsonSieve

/-! ### Written forms hold no control characters -/

namespace Document

theorem isPrinted_of_isNumberChar {c : Char} (h : NumberText.IsNumberChar c) :
    isPrinted c = true := by
  rcases h with h | h
  · have hrange := Text.toNat_of_isDigit h
    exact isPrinted_iff.mpr (by omega)
  · revert h
    simp only [List.mem_cons, List.not_mem_nil, or_false]
    rintro (rfl | rfl | rfl | rfl | rfl) <;> rfl

theorem isPrinted_of_mem_number (v : Document.Number) : ∀ c ∈ v.toChars, isPrinted c = true := by
  obtain ⟨n, hn, -⟩ := NumberText.exists_text_eq_toChars v
  rw [← hn]
  exact fun c hc => isPrinted_of_isNumberChar (n.isNumberChar_text c hc)

mutual

/-- **No control character is written**, whatever the document holds. -/
theorem isPrinted_toChars : (d : Document) → ∀ c ∈ d.toChars, isPrinted c = true
  | null => List.all_eq_true.mp rfl
  | bool true => List.all_eq_true.mp rfl
  | bool false => List.all_eq_true.mp rfl
  | number v => isPrinted_of_mem_number v
  | string s => isPrinted_of_mem_quoted s
  | array [] => List.all_eq_true.mp rfl
  | array (d :: rest) => by
    rw [toChars]
    refine List.forall_mem_cons.mpr ⟨rfl, List.forall_mem_append.mpr ⟨?_, ?_⟩⟩
    · exact isPrinted_toChars d
    · exact isPrinted_elementsToChars rest
  | object [] => List.all_eq_true.mp rfl
  | object ((k, v) :: rest) => by
    rw [toChars]
    refine List.forall_mem_cons.mpr ⟨rfl, List.forall_mem_append.mpr ⟨?_, ?_⟩⟩
    · exact isPrinted_of_mem_quoted k
    refine List.forall_mem_cons.mpr ⟨rfl, List.forall_mem_append.mpr ⟨?_, ?_⟩⟩
    · exact isPrinted_toChars v
    · exact isPrinted_membersToChars rest

theorem isPrinted_elementsToChars :
    (elements : List Document) → ∀ c ∈ elementsToChars elements, isPrinted c = true
  | [] => List.all_eq_true.mp rfl
  | d :: rest => by
    rw [elementsToChars]
    refine List.forall_mem_cons.mpr ⟨rfl, List.forall_mem_append.mpr ⟨?_, ?_⟩⟩
    · exact isPrinted_toChars d
    · exact isPrinted_elementsToChars rest

theorem isPrinted_membersToChars :
    (members : List (String × Document)) → ∀ c ∈ membersToChars members, isPrinted c = true
  | [] => List.all_eq_true.mp rfl
  | (k, v) :: rest => by
    rw [membersToChars]
    refine List.forall_mem_cons.mpr ⟨rfl, List.forall_mem_append.mpr ⟨?_, ?_⟩⟩
    · exact isPrinted_of_mem_quoted k
    refine List.forall_mem_cons.mpr ⟨rfl, List.forall_mem_append.mpr ⟨?_, ?_⟩⟩
    · exact isPrinted_toChars v
    · exact isPrinted_membersToChars rest

end

theorem le_of_mem_encode_toChars (d : Document) {b : UInt8} (hb : b ∈ Utf8.encode d.toChars) :
    0x20 ≤ b.toNat := by
  obtain ⟨c, hc, hb⟩ := List.mem_flatMap.mp hb
  have hprinted := isPrinted_iff.mp (d.isPrinted_toChars c hc)
  rcases Nat.lt_or_ge c.toNat 0x80 with hlt | hge
  · rw [Utf8.encodeChar_of_ascii hlt, List.mem_singleton] at hb
    rwa [hb, Ascii.byte, Utf8.toNat_ofNat_of_lt (by omega)]
  · exact Nat.le_trans (by decide) (Utf8.le_of_mem_encodeChar hge hb)

theorem not_mem_encode_toChars (d : Document) {b : UInt8} (h : b.toNat < 0x20) :
    b ∉ Utf8.encode d.toChars :=
  fun hb => absurd (d.le_of_mem_encode_toChars hb) (Nat.not_le_of_lt h)

end Document

/-! ### Copies are lines -/

namespace Stream

/-- **The content of a copy** is the written form of its document. -/
theorem content_copy (d : Document) : content (copy d) = Utf8.encode d.toChars := by
  rw [content, copy_eq, dropEnd_append_self]
  refine dropEnd_of_getLast?_ne fun hlast => ?_
  exact d.not_mem_encode_toChars (by decide) (List.mem_of_getLast? hlast)

theorem not_isBlankLine_copy (d : Document) : ¬isBlankLine (content (copy d)) = true := by
  obtain ⟨b, t, htext, hb⟩ := d.exists_encode_toChars
  rw [content_copy, htext, isBlankLine, List.all_cons, hb, Bool.false_and]
  exact Bool.false_ne_true

/-- **Copies are lines**, one each. -/
theorem physicalLines_flatMap_copy (ds : List Document) :
    physicalLines (ds.flatMap copy) = ds.map copy := by
  induction ds with
  | nil => rfl
  | cons d ds ih =>
    have hnl : Ascii.newline ∉ Utf8.encode d.toChars := d.not_mem_encode_toChars (by decide)
    rw [List.flatMap_cons, List.map_cons, copy_eq, List.append_assoc, List.singleton_append,
      physicalLines_append_newline hnl, ih]

/-- **The documents of an input that satisfy a condition.** -/
def matching (c : Condition) (input : List UInt8) : List Document :=
  (entries input).filterMap (Entry.copied? c)

end Stream

/-! ### The answer for a copy -/

/-- **A document that has been copied** is read from its written form, and it satisfies
the condition again. -/
theorem Condition.evaluate_toChars {c : Condition} {e : Stream.Entry} {d : Document}
    (h : e.copied? c = some d) (hreals : ∀ x ∈ d.reals, x.IsReadBack) :
    c.evaluate (Utf8.encode d.toChars) = .ok ⟨d, true⟩ := by
  have hanswer : c.evaluate e.content = .ok ⟨d, true⟩ := by
    unfold Stream.Entry.copied? at h
    split at h
    · rename_i d' he
      rw [he, Option.some.inj h]
    · cases h
  unfold evaluate at hanswer
  split at hanswer
  · cases hanswer
  rename_i d' hparse
  split at hanswer
  · cases hanswer
  rename_i matched hsatisfied
  obtain ⟨rfl, rfl⟩ : d' = d ∧ matched = true := by simpa using hanswer
  -- the document has been read, and so it has the shape of documents that are
  have hread : Document.read e.content = .ok d' := by
    unfold Document.parse at hparse
    split at hparse
    · cases hparse
    · rename_i hread
      rw [hread, Except.ok.inj hparse]
  rw [evaluate, Document.parse_toChars (Document.fits_of_read hread) hreals]
  dsimp only
  rw [hsatisfied]

namespace Sieve

/-- A run over copies that all satisfy the condition copies all of them. -/
theorem meaningOf_copies {sieve : Sieve} {ds : List Document}
    (h : ∀ d ∈ ds, sieve.condition.evaluate (Utf8.encode d.toChars) = .ok ⟨d, true⟩)
    (number : Nat) :
    sieve.meaningOf (Stream.entriesFrom number (ds.map Stream.copy)) =
      ⟨.ok ⟨ds.length, ds.length, 0⟩, (ds.flatMap Stream.copy).toArray⟩ := by
  induction ds generalizing number with
  | nil => exact meaningOf_nil
  | cons d ds ih =>
    rw [List.forall_mem_cons] at h
    have hanswer : sieve.condition.evaluate (Stream.content (Stream.copy d)) = .ok ⟨d, true⟩ := by
      rw [Stream.content_copy, h.1]
    rw [List.map_cons, Stream.entriesFrom_cons (Stream.not_isBlankLine_copy d),
      meaningOf_cons_of_ok _ hanswer, ih h.2]
    simp [Outcome.after, Except.map, Stats.add, Nat.add_comm]

/-- A run that succeeds has copied all documents that satisfy the condition. -/
theorem eq_of_meaning {sieve : Sieve} {input : List UInt8} {stats : Stats} {output : Array UInt8}
    (h : sieve.meaning input = ⟨.ok stats, output⟩) :
    stats.matched = (Stream.matching sieve.condition input).length ∧
      output = ((Stream.matching sieve.condition input).flatMap Stream.copy).toArray := by
  unfold meaning meaningOf at h
  split at h
  · cases h
    exact ⟨rfl, rfl⟩
  · split at h
    · cases h
      exact ⟨rfl, rfl⟩
    · cases h

/-- **Filtering the output again changes nothing**: if a run succeeds, whether it skips
lines or not, and the doubles in the documents that it has copied are read back, then a
run over its output with the same condition succeeds without skipping a line, matches
every line and writes the same output. -/
theorem run_again (c : Condition) (skip : Bool) (pieces : List (List UInt8)) (stats : Stats)
    (output : Array UInt8)
    (hrun : Sieve.run ⟨c, skip⟩ ⟨pieces, none⟩ .unlimited = ⟨.ok stats, output⟩)
    (hreals : ∀ d ∈ Stream.matching c pieces.flatten, ∀ x ∈ d.reals, x.IsReadBack)
    (again : List (List UInt8)) (hagain : again.flatten = output.toList) :
    Sieve.run ⟨c, false⟩ ⟨again, none⟩ .unlimited =
      ⟨.ok ⟨stats.matched, stats.matched, 0⟩, output⟩ := by
  rw [run_eq_meaning] at hrun
  obtain ⟨hmatched, houtput⟩ := eq_of_meaning hrun
  have hanswers : ∀ d ∈ Stream.matching c pieces.flatten,
      c.evaluate (Utf8.encode d.toChars) = .ok ⟨d, true⟩ := by
    intro d hd
    obtain ⟨e, -, he⟩ := List.mem_filterMap.mp hd
    exact Condition.evaluate_toChars he (hreals d hd)
  calc Sieve.run ⟨c, false⟩ ⟨again, none⟩ .unlimited
      = Sieve.meaning ⟨c, false⟩ output.toList := by rw [run_eq_meaning, hagain]
    _ = Sieve.meaningOf ⟨c, false⟩
          (Stream.entriesFrom 1 ((Stream.matching c pieces.flatten).map Stream.copy)) := by
        rw [meaning, Stream.entries, houtput, List.toList_toArray,
          Stream.physicalLines_flatMap_copy]
    _ = ⟨.ok ⟨stats.matched, stats.matched, 0⟩, output⟩ := by
        rw [meaningOf_copies hanswers, hmatched, houtput]

/-- The condition `b = 25.05`. -/
def priced : Condition := ⟨⟨"b", [⟨some "b", []⟩]⟩, .equal, "25.05"⟩

/-- Two documents that satisfy it, with a line between them that holds none, a blank one,
and a document that does not. -/
def unordered : List UInt8 :=
  Utf8.bytes ("\x7b\"b\": [[-0], 2505e-2, -7], \"a\":0, " ++
    "\"a\" : \"\\u0041\\n\\\"\\/\u00e9\\u001F\"\x7d\r\n" ++
    "?\n\n\x7b\"b\":2\x7d\n \x7b\"c\":\x7b\x7d,\"b\":25.050\x7d")

/-- What is written for them. -/
def ordered : List UInt8 :=
  Utf8.bytes ("\x7b\"a\":\"A\\n\\\"/\u00e9\\u001f\",\"b\":[[-0.0],25.05,-7]\x7d\n" ++
    "\x7b\"b\":25.05,\"c\":\x7b\x7d\x7d\n")

/-- Members have been ordered, one of two with the same key is gone, escapes and numbers
are written in another way: and none of this happens a second time. -/
theorem run_again_ordered :
    Sieve.run ⟨priced, true⟩ ⟨[unordered], none⟩ .unlimited =
        ⟨.ok ⟨4, 2, 1⟩, ordered.toArray⟩ ∧
      Sieve.run ⟨priced, false⟩ ⟨[ordered], none⟩ .unlimited =
        ⟨.ok ⟨2, 2, 0⟩, ordered.toArray⟩ := by
  have hparts : (Sieve.run ⟨priced, true⟩ ⟨[unordered], none⟩ .unlimited).result =
        .ok ⟨4, 2, 1⟩ ∧
      (Sieve.run ⟨priced, true⟩ ⟨[unordered], none⟩ .unlimited).output = ordered.toArray := by
    decide +kernel
  have hrun := congrArg₂ Outcome.mk hparts.1 hparts.2
  have htexts : ∀ x ∈ (Stream.matching priced unordered).flatMap Document.reals,
      ∃ n ∈ [.positional false (NumberText.isNumeral_toDigits (by decide : 2505 ≠ 0)) 1,
          NumberText.belowOne true NumberText.isDigit_zero],
        n.text = x.toChars ∧ n.number? = some (.real x) := by decide +kernel
  have hreals : ∀ d ∈ Stream.matching priced [unordered].flatten, ∀ x ∈ d.reals,
      x.IsReadBack := by
    intro d hd x hx
    rw [List.flatten_singleton] at hd
    obtain ⟨n, -, htext, hnumber⟩ := htexts x (List.mem_flatMap.mpr ⟨d, hd, hx⟩)
    exact (NumberText.isReadBack_iff htext).mpr hnumber
  refine ⟨hrun, ?_⟩
  exact run_again priced true [unordered] ⟨4, 2, 1⟩ ordered.toArray hrun hreals [ordered]
    (by rw [List.flatten_singleton, List.toList_toArray])

end Sieve

end JsonSieve
