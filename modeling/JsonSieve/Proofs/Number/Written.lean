import JsonSieve.Proofs.Number.Layout
import JsonSieve.Proofs.Number.Value

/-!
# The written forms of numbers

Every number of a document is written as a text of a number
(`JsonSieve.NumberText.exists_text_eq_toChars`): an integer as its digits, and a double
as the digits of its shortest decimal, laid out
(`JsonSieve.NumberText.exists_text_eq_finite`).

An integer is read back from its written form. A double need not be, since the reader
rounds more than once; whether it is (`JsonSieve.Binary64.Finite.IsReadBack`) can be
told from its text alone (`JsonSieve.NumberText.isReadBack_iff`), and so it does not
matter where in a document the double stands.
-/

namespace JsonSieve

/-- **A double is read back** if its written form, as a document of its own, is read as
this double. -/
def Binary64.Finite.IsReadBack (x : Binary64.Finite) : Prop :=
  Document.parse (Utf8.encode x.toChars) = .ok (.number (.real x))

namespace NumberText

/-- **A double is written as its shortest decimal**, unless it is zero. -/
theorem exists_text_eq_finite (x : Binary64.Finite) :
    ∃ n : NumberText, n.text = x.toChars ∧ n.negative = x.negative ∧
      n.magnitude = if x.units = 0 then 0 else x.shortest.value := by
  have hunsigned : ∃ n : NumberText, n.negative = x.negative ∧
      n.unsigned = (if x.units = 0 then ['0', '.', '0'] else x.shortest.toChars) ∧
      n.magnitude = if x.units = 0 then 0 else x.shortest.value := by
    split
    · exact exists_unsigned_eq_zero x.negative
    · exact exists_unsigned_eq_decimal x.negative x.shortest
  obtain ⟨n, hnegative, htext, hvalue⟩ := hunsigned
  exact ⟨n, by rw [text, hnegative, htext]; rfl, hnegative, hvalue⟩

/-! ### Integers -/

theorem isDigit_nil : ∀ c ∈ ([] : List Char), c.isDigit = true := List.forall_mem_nil _

/-- The text of an integer. -/
def ofInt (i : Int) : NumberText where
  negative := decide (i < 0)
  whole := digitsOf i.natAbs
  fraction := ⟨[], isDigit_nil⟩
  exponent := none
  whole_ne_nil := digitsOf_ne_nil i.natAbs
  leading_zero := by
    intro hzero
    by_cases hi : i.natAbs = 0
    · rw [hi]
      rfl
    · exact absurd hzero (head?_toDigits hi)

theorem mantissa_ofInt (i : Int) : (ofInt i).mantissa = i.natAbs := by
  rw [mantissa, ofInt]
  dsimp only
  rw [List.append_nil]
  exact Nat.ofDigitChars_toDigits (by decide) (by decide)

theorem text_ofInt (i : Int) (h : -9223372036854775808 ≤ i ∧ i < 18446744073709551616) :
    (ofInt i).text = (Document.Number.integer i h).toChars := by
  rw [text, unsigned, tail, Document.Number.toChars, ofInt]
  simp [fractionText, exponentText, digitsOf]

/-- **An integer is read back**, whatever its sign. -/
theorem number?_ofInt (i : Int) (h : -9223372036854775808 ≤ i ∧ i < 18446744073709551616) :
    (ofInt i).number? = some (.integer i h) := by
  have hinteger : (ofInt i).integer? = some (.integer i h) := by
    rw [integer?, if_pos ⟨rfl, rfl⟩, mantissa_ofInt, Document.integer?, ofInt]
    by_cases hi : i < 0
    · have hne : i.natAbs ≠ 0 := by omega
      have habs : -(i.natAbs : Int) = i := by omega
      rw [if_pos (decide_eq_true hi), if_neg hne, habs, Document.Number.ofInt?, dif_pos h]
    · have habs : (i.natAbs : Int) = i := by omega
      rw [if_neg (by simpa using hi), habs, Document.Number.ofInt?, dif_pos h]
  rw [number?, hinteger, Option.some_or]

/-! ### Numbers by themselves -/

variable (n : NumberText)

theorem endsNumber_nil : EndsNumber [] := ⟨stops_nil, stops_nil, stops_nil⟩

/-- **A number that is a document of its own** is read as any other. -/
theorem toOption_parse_text :
    (Document.parse (Utf8.encode n.text)).toOption = n.number?.map .number := by
  have htext : Utf8.encode n.text = bytes n.text ++ [] := by rw [encode_text, List.append_nil]
  rw [Document.parse, Document.read, htext]
  cases hv : n.number? with
  | some v =>
    rw [run_text hv [] endsNumber_nil, Document.State.complete, Document.State.run_of_end rfl]
    rfl
  | none =>
    obtain ⟨f, hf⟩ := run_text_of_none hv [] endsNumber_nil
    rw [hf]
    rfl

variable {n}

/-- Whether a double is read back can be told from its text. -/
theorem isReadBack_iff {x : Binary64.Finite} (h : n.text = x.toChars) :
    x.IsReadBack ↔ n.number? = some (.real x) := by
  have hparse := n.toOption_parse_text
  rw [h] at hparse
  constructor
  · intro hx
    rw [hx] at hparse
    obtain ⟨v, hv, hnumber⟩ := Option.map_eq_some_iff.mp hparse.symm
    rw [hv, Document.number.inj hnumber]
  · intro hv
    rw [hv] at hparse
    cases hx : Document.parse (Utf8.encode x.toChars) with
    | error e =>
      rw [hx] at hparse
      cases hparse
    | ok d =>
      rw [hx] at hparse
      rw [Binary64.Finite.IsReadBack, hx, Option.some.inj hparse]

/-- **The written form of a number is the text of one**, which is read back, provided that
a double is. -/
theorem exists_text_eq_toChars (v : Document.Number) :
    ∃ n : NumberText, n.text = v.toChars ∧
      ((∀ x, v = .real x → x.IsReadBack) → n.number? = some v) := by
  cases v with
  | integer i hi => exact ⟨ofInt i, text_ofInt i hi, fun _ => number?_ofInt i hi⟩
  | real x =>
    obtain ⟨n, hn, -⟩ := exists_text_eq_finite x
    exact ⟨n, hn, fun h => (isReadBack_iff hn).mp (h x rfl)⟩

end NumberText

end JsonSieve
