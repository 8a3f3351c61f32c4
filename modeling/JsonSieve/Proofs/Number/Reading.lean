import JsonSieve.Proofs.Number.Text

/-!
# Numbers in a document

The reader of documents reads every text of a number, and to its end: followed by a
byte that does not go on with a number, it gives the number that
`JsonSieve.NumberText.number?` says, or fails if that is none
(`JsonSieve.NumberText.reads_readNumber`). The proof goes through the reader from its
end to its beginning – what finishes a number, an exponent, a fraction, the digits
before the point – and at each place says which number comes out
(`JsonSieve.NumberText.Reads`).
-/

namespace JsonSieve

namespace NumberText

/-! ### Bytes -/

/-- The bytes of an ASCII text. -/
def bytes (t : List Char) : List UInt8 := t.map Ascii.byte

@[simp] theorem bytes_nil : bytes [] = [] := rfl

@[simp] theorem bytes_cons (c : Char) (t : List Char) : bytes (c :: t) = Ascii.byte c :: bytes t :=
  rfl

@[simp] theorem bytes_append (s t : List Char) : bytes (s ++ t) = bytes s ++ bytes t :=
  List.map_append

theorem digit?_byte {c : Char} (h : c.isDigit = true) :
    Ascii.digit? (Ascii.byte c) = some (c.toNat - '0'.toNat) := by
  have hrange := Text.toNat_of_isDigit h
  have hbyte : (Ascii.byte c).toNat = c.toNat := by
    rw [Ascii.byte, UInt8.toNat_ofNat']
    omega
  rw [Ascii.digit?, hbyte, if_pos (by omega)]
  rfl

/-- Bytes that are not digits. -/
abbrev StopsDigits (s : List UInt8) : Prop := Stops (fun b => (Ascii.digit? b).isSome) s

/-- Bytes that do not go on with a number. -/
structure EndsNumber (s : List UInt8) : Prop where
  /-- No digit follows. -/
  digit : StopsDigits s
  /-- No point follows. -/
  point : Stops (· == Ascii.point) s
  /-- No exponent follows. -/
  letter : Stops Document.isExponentLetter s

theorem isSome_digit?_of_mem_bytes {ds : List Char} (h : ∀ c ∈ ds, c.isDigit = true) :
    ∀ b ∈ bytes ds, (Ascii.digit? b).isSome = true := by
  intro b hb
  obtain ⟨c, hc, rfl⟩ := List.mem_map.mp hb
  rw [digit?_byte (h c hc)]
  rfl

theorem dropDigits_bytes {ds : List Char} (h : ∀ c ∈ ds, c.isDigit = true) {r : List UInt8}
    (hr : StopsDigits r) : Ascii.dropDigits (bytes ds ++ r) = r :=
  dropWhile_append_of_stops (isSome_digit?_of_mem_bytes h) hr

theorem countDigits_bytes {ds : List Char} (h : ∀ c ∈ ds, c.isDigit = true) {r : List UInt8}
    (hr : StopsDigits r) : Ascii.countDigits (bytes ds ++ r) = ds.length := by
  rw [Ascii.countDigits, takeWhile_append_of_stops (isSome_digit?_of_mem_bytes h) hr, bytes,
    List.length_map]

/-- **Gathering digits** is gathering their bytes. -/
theorem gather_bytes {ds : List Char} (h : ∀ c ∈ ds, c.isDigit = true) {r : List UInt8}
    (hr : StopsDigits r) (s taken : Nat) :
    Document.gather s taken (bytes ds ++ r) =
      ((gathered s ds).1, taken + (ds.length - (gathered s ds).2.length),
        bytes (gathered s ds).2 ++ r) := by
  induction ds generalizing s taken with
  | nil =>
    cases r with
    | nil => rfl
    | cons b r =>
      have hb : Ascii.digit? b = none := by simpa using stops_cons.mp hr
      simp [Document.gather, hb, gathered]
  | cons c ds ih =>
    rw [List.forall_mem_cons] at h
    rw [bytes_cons, List.cons_append, Document.gather, digit?_byte h.1]
    dsimp only
    rw [gathered]
    split
    · -- the digit fits, and counts as taken
      rw [ih h.2]
      have := length_gathered_le (10 * s + (c.toNat - '0'.toNat)) ds
      refine Prod.ext rfl (Prod.ext ?_ rfl)
      dsimp only
      rw [List.length_cons]
      omega
    · simp

/-! ### What a reader makes of a number -/

/-- A reader that answers with a number, leaving the bytes `r`, or fails if there is
none. -/
def Reads (reading : Document.Reading Document.Number) (number? : Option Document.Number)
    (r : List UInt8) : Prop :=
  match number? with
  | some x => reading = .ok (x, r)
  | none => ∃ f, reading = .error f

theorem reads_finishReal (negative : Bool) (s : Nat) (k : Int) (r : List UInt8) :
    Reads (Document.finishReal negative s k r)
      ((Binary64.scaled? s k).map (real negative)) r := by
  rw [Document.finishReal]
  cases Binary64.scaled? s k with
  | none => exact ⟨_, rfl⟩
  | some x => rfl

theorem readExponentDigits_bytes {ds : List Char} (h : ∀ c ∈ ds, c.isDigit = true)
    {r : List UInt8} (hr : StopsDigits r) (m : Nat) (hm : m ≤ Document.maxExponent) :
    (Nat.ofDigitChars 10 ds m ≤ Document.maxExponent ∧
      Document.readExponentDigits m (bytes ds ++ r) = (.value (Nat.ofDigitChars 10 ds m), r)) ∨
    (¬Nat.ofDigitChars 10 ds m ≤ Document.maxExponent ∧
      ∃ r', Document.readExponentDigits m (bytes ds ++ r) = (.huge, r') ∧
        Ascii.dropDigits r' = r) := by
  induction ds generalizing m with
  | nil =>
    refine Or.inl ⟨hm, ?_⟩
    cases r with
    | nil => rfl
    | cons b r =>
      have hb : Ascii.digit? b = none := by simpa using stops_cons.mp hr
      simp [Document.readExponentDigits, hb]
  | cons c ds ih =>
    rw [List.forall_mem_cons] at h
    rw [bytes_cons, List.cons_append, Document.readExponentDigits, digit?_byte h.1,
      Nat.ofDigitChars_cons]
    dsimp only
    by_cases hlt : Document.maxExponent < 10 * m + (c.toNat - '0'.toNat)
    · -- too large already, and further digits make it larger
      have hle := le_ofDigitChars ds (10 * m + (c.toNat - '0'.toNat))
      rw [if_pos hlt]
      exact Or.inr ⟨by omega, _, rfl, dropDigits_bytes h.2 hr⟩
    · rw [if_neg hlt]
      exact ih h.2 _ (Nat.le_of_not_lt hlt)

theorem splitSign_bytes (e : Exponent) (r : List UInt8) :
    Document.splitSign (bytes (e.sign ++ e.digits.1) ++ r) =
      (e.negative, bytes e.digits.1 ++ r) := by
  obtain ⟨c, ds, hds, hc⟩ := exists_cons_of_isDigit e.digits_ne_nil
  have hsome := digit?_byte hc
  have hminus : Ascii.byte c ≠ Ascii.minus := fun h => by rw [h] at hsome; cases hsome
  have hplus : Ascii.byte c ≠ Ascii.plus := fun h => by rw [h] at hsome; cases hsome
  rcases e.sign_eq with h | h | h
  · rw [Exponent.negative, h, hds]
    simp [Document.splitSign, hminus, hplus]
  · rw [Exponent.negative, h]
    rfl
  · rw [Exponent.negative, h]
    rfl

/-- **An exponent** scales what has been gathered. -/
theorem reads_readExponent (e : Exponent) (negative : Bool) (s : Nat) (k : Int) {r : List UInt8}
    (hr : StopsDigits r) :
    Reads (Document.readExponent negative s k (bytes (e.sign ++ e.digits.1) ++ r))
      ((scaledBy? s k (some e)).map (real negative)) r := by
  obtain ⟨c, ds, hds, hc⟩ := exists_cons_of_isDigit e.digits_ne_nil
  have hsome : ¬(Ascii.digit? (Ascii.byte c)).isNone = true := by
    rw [digit?_byte hc]
    exact Bool.false_ne_true
  have hdigits := readExponentDigits_bytes e.digits.2 hr 0 (Nat.zero_le _)
  rw [Document.readExponent, splitSign_bytes, scaledBy?, Exponent.magnitude]
  rw [hds, bytes_cons, List.cons_append] at hdigits ⊢
  dsimp only
  rw [if_neg hsome]
  rcases hdigits with ⟨hle, hread⟩ | ⟨hnle, r', hread, hdrop⟩
  · -- the exponent is computed: its sign decides whether it is added or taken away
    rw [hread, if_pos hle]
    have hk : (if e.negative = true then k - (Nat.ofDigitChars 10 (c :: ds) 0 : Int)
        else k + (Nat.ofDigitChars 10 (c :: ds) 0 : Int)) = k + e.value := by
      rw [Exponent.value, Exponent.magnitude, hds]
      cases e.negative
      · rfl
      · exact Int.sub_eq_add_neg
    dsimp only
    rw [hk]
    exact reads_finishReal _ _ _ _
  · -- it is not computed: the number is out of range or zero
    rw [hread, if_neg hnle]
    dsimp only
    by_cases hout : s ≠ 0 ∧ e.negative = false
    · rw [if_pos hout, if_pos hout]
      exact ⟨_, rfl⟩
    · rw [if_neg hout, if_neg hout, hdrop]
      cases negative <;> rfl

theorem isExponentLetter_byte (e : Exponent) :
    Document.isExponentLetter (Ascii.byte e.letter) = true := by
  rcases e.letter_eq with h | h <;> rw [h] <;> rfl

theorem byte_letter_ne_point (e : Exponent) : Ascii.byte e.letter ≠ Ascii.point := by
  intro h
  have hletter := isExponentLetter_byte e
  rw [h] at hletter
  cases hletter

/-- What may stand after the digits does not begin with one. -/
theorem stopsDigits_exponentText (e : Option Exponent) {r : List UInt8} (hr : EndsNumber r) :
    StopsDigits (bytes (exponentText e) ++ r) := by
  cases e with
  | none => exact hr.digit
  | some e =>
    rcases e.letter_eq with h | h <;>
      · simp only [exponentText, Exponent.text, bytes_cons, List.cons_append, h]
        exact stops_cons.mpr rfl

theorem stopsDigits_tail (n : NumberText) {r : List UInt8} (hr : EndsNumber r) :
    StopsDigits (bytes n.tail ++ r) := by
  rw [tail, bytes_append, List.append_assoc]
  cases n.fraction.1 with
  | nil => exact stopsDigits_exponentText _ hr
  | cons c ds => exact stops_cons.mpr rfl

theorem reads_readAfterFraction (e : Option Exponent) (negative : Bool) (s : Nat) (k : Int)
    {r : List UInt8} (hr : EndsNumber r) :
    Reads (Document.readAfterFraction negative s k (bytes (exponentText e) ++ r))
      ((scaledBy? s k e).map (real negative)) r := by
  cases e with
  | none =>
    cases r with
    | nil => exact reads_finishReal _ _ _ _
    | cons b r =>
      have hb : ¬Document.isExponentLetter b = true := by
        rw [stops_cons.mp hr.letter]
        exact Bool.false_ne_true
      rw [exponentText, bytes_nil, List.nil_append, Document.readAfterFraction, if_neg hb]
      exact reads_finishReal _ _ _ _
  | some e =>
    rw [exponentText, Exponent.text, bytes_cons, List.cons_append, Document.readAfterFraction,
      if_pos (isExponentLetter_byte e)]
    exact reads_readExponent e negative s k hr.digit

/-- **The digits after the point** are gathered as far as they fit. -/
theorem reads_readFraction {ds : List Char} (hds : ∀ c ∈ ds, c.isDigit = true) (hne : ds ≠ [])
    (e : Option Exponent) (negative : Bool) (s dropped : Nat) {r : List UInt8}
    (hr : EndsNumber r) :
    Reads (Document.readFraction negative s dropped (bytes ds ++ (bytes (exponentText e) ++ r)))
      ((scaledBy? (gathered s ds).1
        ((dropped : Int) - ((ds.length - (gathered s ds).2.length : Nat) : Int)) e).map
          (real negative)) r := by
  have hstop := stopsDigits_exponentText e hr
  have hstart : Ascii.startsWithDigit (bytes ds ++ (bytes (exponentText e) ++ r)) = true := by
    obtain ⟨c, ds', rfl⟩ := List.exists_cons_of_ne_nil hne
    rw [bytes_cons, List.cons_append, Ascii.startsWithDigit, digit?_byte (hds c List.mem_cons_self)]
    rfl
  rw [Document.readFraction, gather_bytes hds hstop]
  dsimp only
  rw [if_pos hstart, dropDigits_bytes (isDigit_of_mem_gathered hds) hstop, Nat.zero_add]
  exact reads_readAfterFraction e negative _ _ hr

/-! ### Whole numbers -/

/-- A number of more than 64 bits is no integer. -/
theorem integer?_of_le {negative : Bool} {m : Nat} (h : Document.significandLimit ≤ m) :
    Document.integer? negative m = none := by
  unfold Document.significandLimit at h
  have hne : m ≠ 0 := by omega
  cases negative with
  | true =>
    rw [Document.integer?, if_pos rfl, if_neg hne, Document.Number.ofInt?, dif_neg (by omega)]
  | false =>
    rw [Document.integer?, if_neg Bool.false_ne_true, Document.Number.ofInt?, dif_neg (by omega)]

variable (n : NumberText)

theorem stepped?_of_fraction_eq_nil (h : n.fraction.1 = []) :
    n.stepped? = scaledBy? n.gatheredWhole.1 n.gatheredWhole.2.length n.exponent := by
  rw [stepped?, significand, shift, gatheredFraction, h]
  simp [gathered]

theorem mantissa_of_fraction_eq_nil (h : n.fraction.1 = []) :
    n.mantissa = Nat.ofDigitChars 10 n.whole.1 0 := by
  rw [mantissa, h, List.append_nil]

/-- Only digits that do not fit are left. -/
theorem integer?_of_gatheredWhole_ne (h : n.gatheredWhole.2 ≠ []) :
    Document.integer? n.negative n.mantissa = none := by
  refine integer?_of_le (Nat.le_of_not_lt fun hlt => h ?_)
  rw [(n.gathered_whole_fraction hlt).1]

theorem gatheredWhole_of_eq_nil (hf : n.fraction.1 = []) (h : n.gatheredWhole.2 = []) :
    n.gatheredWhole.1 = n.mantissa := by
  obtain ⟨kept, hkept, hs⟩ := exists_gathered 0 n.whole.1
  rw [gatheredWhole] at h ⊢
  rw [h, List.append_nil] at hkept
  rw [hs, n.mantissa_of_fraction_eq_nil hf, hkept]

/-- A number without point and exponent. -/
theorem reads_end (hf : n.fraction.1 = []) (he : n.exponent = none) (r : List UInt8) :
    Reads (if n.gatheredWhole.2.length = 0 then
        Document.finishInteger n.negative n.gatheredWhole.1 r
      else Document.finishReal n.negative n.gatheredWhole.1 n.gatheredWhole.2.length r)
      n.number? r := by
  have hinteger : n.integer? = Document.integer? n.negative n.mantissa := by
    rw [integer?, if_pos ⟨hf, by rw [he]; rfl⟩]
  rw [number?, hinteger, n.stepped?_of_fraction_eq_nil hf, he, scaledBy?]
  by_cases hleft : n.gatheredWhole.2 = []
  · -- all digits fit: an integer, unless it is out of range
    rw [hleft, n.gatheredWhole_of_eq_nil hf hleft, List.length_nil, if_pos rfl,
      Document.finishInteger]
    cases Document.integer? n.negative n.mantissa with
    | some x => rfl
    | none => exact reads_finishReal _ _ _ _
  · -- some digits are left, so that the number is too large for an integer
    have hlength : ¬n.gatheredWhole.2.length = 0 := fun h => hleft (List.eq_nil_of_length_eq_zero h)
    rw [if_neg hlength, n.integer?_of_gatheredWhole_ne hleft]
    exact reads_finishReal _ _ _ _

theorem number?_of_not_integer (h : ¬(n.fraction.1 = [] ∧ n.exponent.isNone = true)) :
    n.number? = n.stepped?.map (real n.negative) := by
  rw [number?, integer?, if_neg h]
  rfl

/-- **After the digits before the point** the reader arrives at the number. -/
theorem reads_readAfterWhole {r : List UInt8} (hr : EndsNumber r) :
    Reads (Document.readAfterWhole n.negative n.gatheredWhole.1 n.gatheredWhole.2.length
      (bytes n.tail ++ r)) n.number? r := by
  rw [tail, bytes_append, List.append_assoc]
  rcases hf : n.fraction.1 with _ | ⟨c, ds⟩
  · cases he : n.exponent with
    | none =>
      have hend := n.reads_end hf he r
      cases r with
      | nil => exact hend
      | cons b r =>
        have hpoint : b ≠ Ascii.point := by simpa using stops_cons.mp hr.point
        have hletter : ¬Document.isExponentLetter b = true := by
          rw [stops_cons.mp hr.letter]
          exact Bool.false_ne_true
        simp only [fractionText, exponentText, bytes_nil, List.nil_append]
        rw [Document.readAfterWhole, if_neg hpoint, if_neg hletter]
        exact hend
    | some e =>
      rw [n.number?_of_not_integer (by simp [he]), n.stepped?_of_fraction_eq_nil hf, he]
      simp only [fractionText, exponentText, Exponent.text, bytes_nil, bytes_cons, List.nil_append,
        List.cons_append]
      rw [Document.readAfterWhole, if_neg (byte_letter_ne_point e),
        if_pos (isExponentLetter_byte e)]
      exact reads_readExponent e _ _ _ hr.digit
  · have hds : ∀ x ∈ c :: ds, x.isDigit = true := hf ▸ n.fraction.2
    rw [n.number?_of_not_integer (by simp [hf]), stepped?, significand, shift, gatheredFraction, hf,
      fractionText, bytes_cons, List.cons_append, Document.readAfterWhole]
    exact reads_readFraction hds (List.cons_ne_nil c ds) n.exponent _ _ _ hr

/-! ### The first digit -/

/-- A zero is all there is before the point. -/
theorem readNumber_zero (negative : Bool) {s : List UInt8} (hs : StopsDigits s) :
    Document.readNumber negative (Ascii.byte '0' :: s) =
      Document.readAfterWhole negative 0 0 s := by
  cases s with
  | nil => rfl
  | cons b t =>
    have hb : ¬(Ascii.digit? b).isSome = true := by
      rw [stops_cons.mp hs]
      exact Bool.false_ne_true
    show (if (Ascii.digit? b).isSome = true then _ else _) = _
    rw [if_neg hb]

/-- Any other digit begins a significand. -/
theorem readNumber_cons (negative : Bool) {c : Char} (hc : c.isDigit = true) (hne : c ≠ '0')
    (s : List UInt8) :
    Document.readNumber negative (Ascii.byte c :: s) =
      Document.readAfterWhole negative (Document.gather (c.toNat - '0'.toNat) 0 s).1
        (Ascii.countDigits (Document.gather (c.toNat - '0'.toNat) 0 s).2.2)
        (Ascii.dropDigits (Document.gather (c.toNat - '0'.toNat) 0 s).2.2) := by
  have hpos : c.toNat - '0'.toNat ≠ 0 := by
    intro h
    have hle : c.toNat ≤ '0'.toNat := Nat.le_of_sub_eq_zero h
    exact hne (Char.toNat_inj.mp (Nat.le_antisymm hle (Text.toNat_of_isDigit hc).1))
  unfold Document.readNumber
  dsimp only
  rw [digit?_byte hc]
  split
  · rename_i h
    cases h
  · rename_i h
    exact absurd (Option.some.inj h) hpos
  · rename_i d _ h
    rw [← Option.some.inj h]

theorem gatheredWhole_of_eq_cons {c : Char} {ds : List Char} (h : n.whole.1 = c :: ds) :
    n.gatheredWhole = gathered (c.toNat - '0'.toNat) ds := by
  have hrange := Text.toNat_of_isDigit (n.whole.2 c (h ▸ List.mem_cons_self))
  have hlt : c.toNat - '0'.toNat < Document.significandLimit := by
    have h0 : '0'.toNat = 48 := rfl
    unfold Document.significandLimit
    omega
  rw [gatheredWhole, h, gathered, Nat.mul_zero, Nat.zero_add, if_pos hlt]

/-- **The reader reads every number to its end.** -/
theorem reads_readNumber {r : List UInt8} (hr : EndsNumber r) :
    Reads (Document.readNumber n.negative (bytes n.unsigned ++ r)) n.number? r := by
  have hstop := n.stopsDigits_tail hr
  have hafter := n.reads_readAfterWhole hr
  obtain ⟨c, ds, hwhole, hc⟩ := exists_cons_of_isDigit n.whole_ne_nil
  have hds : ∀ x ∈ ds, x.isDigit = true := fun x hx =>
    n.whole.2 x (hwhole ▸ List.mem_cons_of_mem c hx)
  rw [unsigned, bytes_append, List.append_assoc, hwhole, bytes_cons, List.cons_append]
  rw [n.gatheredWhole_of_eq_cons hwhole] at hafter
  by_cases hzero : c = '0'
  · subst hzero
    -- no digit follows a zero, neither here nor in what comes after the whole digits
    have hnil : ds = [] := by
      have h := n.leading_zero (by rw [hwhole]; rfl)
      rw [hwhole] at h
      exact (List.cons.inj h).2
    subst hnil
    rw [bytes_nil, List.nil_append, readNumber_zero n.negative hstop]
    exact hafter
  · have hleft := @isDigit_of_mem_gathered (c.toNat - '0'.toNat) ds hds
    rw [readNumber_cons n.negative hc hzero, gather_bytes hds hstop]
    dsimp only
    rw [countDigits_bytes hleft hstop, dropDigits_bytes hleft hstop]
    exact hafter

end NumberText

end JsonSieve
