import JsonSieve.Document.Reader
import JsonSieve.Proofs.Number.Grammar
import JsonSieve.Proofs.Number.Reading
import JsonSieve.Proofs.Text.Utf8

/-!
# Numbers where a value is due

The text of a number is ASCII, so that its UTF-8 form is one byte for each character
(`JsonSieve.NumberText.encode_text`). Where the reader of documents expects a value it
takes these bytes in one step, with any frames around them and anything after them that
does not go on with a number (`JsonSieve.NumberText.run_text`), unless the number is out of
range (`JsonSieve.NumberText.run_text_of_none`).
-/

namespace JsonSieve

namespace NumberText

variable (n : NumberText)

/-! ### Characters -/

theorem IsNumberChar.toNat_le {c : Char} (h : IsNumberChar c) : c.toNat ≤ 127 := by
  rcases h with h | h
  · have hrange := Text.toNat_of_isDigit h
    omega
  · revert h
    simp only [List.mem_cons, List.not_mem_nil, or_false]
    rintro (rfl | rfl | rfl | rfl | rfl) <;> decide

theorem encode_eq_bytes {t : List Char} (h : ∀ c ∈ t, c.toNat ≤ 127) :
    Utf8.encode t = bytes t := by
  induction t with
  | nil => rfl
  | cons c t ih =>
    rw [List.forall_mem_cons] at h
    rw [Utf8.encode_cons, Utf8.encodeChar_of_ascii (Nat.lt_succ_of_le h.1), ih h.2]
    rfl

theorem encode_text : Utf8.encode n.text = bytes n.text :=
  encode_eq_bytes fun c hc => (n.isNumberChar_text c hc).toNat_le

/-! ### Steps of the reader -/

theorem skipBlanks_cons {b : UInt8} (h : Document.isBlank b = false) (r : List UInt8) :
    Document.skipBlanks (b :: r) = b :: r := by
  simp [Document.skipBlanks, h]

/-- A digit is no other byte. -/
theorem ne_of_digit {a b : UInt8} (hb : (Ascii.digit? b).isSome = true)
    (ha : Ascii.digit? a = none) : b ≠ a := by
  rintro rfl
  rw [ha] at hb
  cases hb

theorem isBlank_eq_false_of_digit {b : UInt8} (h : (Ascii.digit? b).isSome = true) :
    Document.isBlank b = false := by
  simp [Document.isBlank, ne_of_digit (a := Ascii.space) h rfl,
    ne_of_digit (a := Ascii.newline) h rfl, ne_of_digit (a := Ascii.tab) h rfl,
    ne_of_digit (a := Ascii.carriageReturn) h rfl]

/-- Where a value is due, a number is read. -/
theorem exists_readValue_text (frames : List Document.Frame) (s : List UInt8) :
    ∃ b r, bytes n.text ++ s = b :: r ∧ Document.isBlank b = false ∧
      Document.readValue b r frames =
        (Document.readNumber n.negative (bytes n.unsigned ++ s)).complete .number frames := by
  cases hneg : n.negative with
  | true =>
    refine ⟨Ascii.minus, bytes n.unsigned ++ s, ?_, by decide, ?_⟩
    · rw [text, hneg]
      rfl
    · rfl
  | false =>
    -- the first byte is a digit, and none of the bytes that begin another value
    obtain ⟨c, ds, hwhole, hc⟩ := exists_cons_of_isDigit n.whole_ne_nil
    have hdigit : (Ascii.digit? (Ascii.byte c)).isSome = true := by
      rw [digit?_byte hc]
      rfl
    have hcons : bytes n.unsigned ++ s = Ascii.byte c :: (bytes (ds ++ n.tail) ++ s) := by
      rw [unsigned, hwhole]
      rfl
    refine ⟨Ascii.byte c, bytes (ds ++ n.tail) ++ s, ?_, isBlank_eq_false_of_digit hdigit, ?_⟩
    · rw [text, hneg, ← hcons]
      rfl
    · rw [Document.readValue, if_neg (ne_of_digit hdigit rfl), if_neg (ne_of_digit hdigit rfl),
        if_neg (ne_of_digit hdigit rfl), if_neg (ne_of_digit hdigit rfl), if_pos hdigit, hcons]

variable {n} {r : List UInt8}

/-- **A number is read in one step**, wherever it stands. -/
theorem run_text {v : Document.Number} (h : n.number? = some v) (frames : List Document.Frame)
    (hr : EndsNumber r) :
    (Document.State.value frames).run (bytes n.text ++ r) =
      (Document.State.complete (.number v) frames).run r := by
  have hreads := n.reads_readNumber hr
  rw [h] at hreads
  obtain ⟨b, t, hbytes, hblank, hvalue⟩ := n.exists_readValue_text frames r
  rw [hbytes]
  refine Document.State.run_of_step (skipBlanks_cons hblank t) ?_
  rw [Document.State.step, hvalue, hreads]
  rfl

/-- A number that is out of range is not read. -/
theorem run_text_of_none (h : n.number? = none) (frames : List Document.Frame)
    (hr : EndsNumber r) :
    ∃ f, (Document.State.value frames).run (bytes n.text ++ r) = .error f := by
  have hreads := n.reads_readNumber hr
  rw [h] at hreads
  obtain ⟨f, hf⟩ := hreads
  obtain ⟨b, t, hbytes, hblank, hvalue⟩ := n.exists_readValue_text frames r
  refine ⟨f, ?_⟩
  rw [hbytes]
  refine Document.State.run_of_failure (skipBlanks_cons hblank t) ?_
  rw [Document.State.step, hvalue, hf]
  rfl

end NumberText

end JsonSieve
