import JsonSieve.Document.NumberReader
import JsonSieve.Numeral
import JsonSieve.Proofs.Text.Split

/-!
# The texts of numbers

A number of a document is written as a sign, digits before a point, digits after it
and an exponent, of which only the digits before the point must be there
(`JsonSieve.NumberText`). The same text is read in two places: in a document, and as
the literal of a condition. This file says what it is and what either reader makes of
it, without reading it.

| | significand | exponent | double |
|---|---|---|---|
| as a literal | `NumberText.mantissa` | `NumberText.scale` | `NumberText.nearest` |
| in a document | `NumberText.significand` | `NumberText.shift` | `NumberText.stepped?` |

A literal stands for the exact value of all its digits, rounded once. In a document
the digits are gathered into 64 bits as long as they fit
(`JsonSieve.NumberText.gathered`), and what has been gathered is scaled in steps; a
whole number that fits stays as it is (`JsonSieve.NumberText.integer?`).
-/

namespace JsonSieve

namespace NumberText

/-- Any number of decimal digits. -/
abbrev Digits : Type := { ds : List Char // ∀ c ∈ ds, c.isDigit = true }

/-- An exponent with its letter. -/
structure Exponent where
  /-- The letter. -/
  letter : Char
  /-- The sign, if there is one. -/
  sign : List Char
  /-- The digits. -/
  digits : Digits
  /-- The letter is of either case. -/
  letter_mem : letter ∈ ['e', 'E']
  /-- There is one sign at most. -/
  sign_mem : sign ∈ [[], ['+'], ['-']]
  /-- There is a digit. -/
  digits_ne_nil : digits.1 ≠ []

theorem exists_cons_of_isDigit {ds : Digits} (hne : ds.1 ≠ []) :
    ∃ c r, ds.1 = c :: r ∧ c.isDigit = true := by
  obtain ⟨c, r, hds⟩ := List.exists_cons_of_ne_nil hne
  exact ⟨c, r, hds, ds.2 c (hds ▸ List.mem_cons_self)⟩

namespace Exponent

theorem letter_eq (e : Exponent) : e.letter = 'e' ∨ e.letter = 'E' := by
  simpa using e.letter_mem

theorem sign_eq (e : Exponent) : e.sign = [] ∨ e.sign = ['+'] ∨ e.sign = ['-'] := by
  simpa using e.sign_mem

/-- The text of an exponent. -/
def text (e : Exponent) : List Char := e.letter :: (e.sign ++ e.digits.1)

/-- Whether the sign is a minus. -/
def negative (e : Exponent) : Bool := e.sign == ['-']

/-- The exponent without its sign. -/
def magnitude (e : Exponent) : Nat := Nat.ofDigitChars 10 e.digits.1 0

/-- The exponent. -/
def value (e : Exponent) : Int := if e.negative then -e.magnitude else e.magnitude

end Exponent

end NumberText

/-- **The text of a number of a document**, part by part. -/
structure NumberText where
  /-- Whether there is a minus. -/
  negative : Bool
  /-- The digits before the point. -/
  whole : NumberText.Digits
  /-- The digits after the point; without any there is no point. -/
  fraction : NumberText.Digits
  /-- The exponent, if there is one. -/
  exponent : Option NumberText.Exponent
  /-- There is a digit before the point. -/
  whole_ne_nil : whole.1 ≠ []
  /-- A zero is not followed by further digits. -/
  leading_zero : whole.1.head? = some '0' → whole.1 = ['0']

namespace NumberText

/-! ### Spelling -/

/-- The point and the digits after it. -/
def fractionText : List Char → List Char
  | [] => []
  | c :: ds => '.' :: c :: ds

/-- The text of an exponent that may be left out. -/
def exponentText : Option Exponent → List Char
  | none => []
  | some e => e.text

variable (n : NumberText)

/-- The text after the digits before the point. -/
def tail : List Char := fractionText n.fraction.1 ++ exponentText n.exponent

/-- The text after the sign. -/
def unsigned : List Char := n.whole.1 ++ n.tail

/-- The text of a number. -/
def text : List Char := (if n.negative then ['-'] else []) ++ n.unsigned

/-! ### The exact value -/

/-- All digits, as a number. -/
def mantissa : Nat := Nat.ofDigitChars 10 (n.whole.1 ++ n.fraction.1) 0

/-- The value of an exponent that may be left out. -/
def exponentValue : Option Exponent → Int
  | none => 0
  | some e => e.value

/-- The power of ten that the digits are multiplied by. -/
def scale : Int := exponentValue n.exponent - n.fraction.1.length

/-- **The nearest double**, the sign apart. -/
def nearest : Binary64 := .ofDecimal false n.mantissa n.scale

/-! ### What a document keeps -/

/-- Digits taken into a significand as long as it has 64 bits: the significand, and the
digits that are left. -/
def gathered (significand : Nat) : List Char → Nat × List Char
  | [] => (significand, [])
  | c :: ds =>
    if 10 * significand + (c.toNat - '0'.toNat) < Document.significandLimit then
      gathered (10 * significand + (c.toNat - '0'.toNat)) ds
    else (significand, c :: ds)

/-- The significand after the digits before the point, and the digits left of them. -/
def gatheredWhole : Nat × List Char := gathered 0 n.whole.1

/-- The significand after all digits, and the digits left after the point. The digits
after the point are tried even if some before it were left. -/
def gatheredFraction : Nat × List Char := gathered n.gatheredWhole.1 n.fraction.1

/-- The digits that are kept, as a number. -/
def significand : Nat := n.gatheredFraction.1

/-- The power of ten that the digits kept are multiplied by, apart from the exponent. -/
def shift : Int :=
  (n.gatheredWhole.2.length : Int) -
    ((n.fraction.1.length - n.gatheredFraction.2.length : Nat) : Int)

/-- A significand scaled in steps, if it is in range. An exponent of more than 31 bits is
not computed. -/
def scaledBy? (significand : Nat) (shift : Int) : Option Exponent → Option Binary64.Finite
  | none => Binary64.scaled? significand shift
  | some e =>
    if e.magnitude ≤ Document.maxExponent then Binary64.scaled? significand (shift + e.value)
    else if significand ≠ 0 ∧ e.negative = false then none
    else some (.zero false)

/-- **The double that scaling in steps arrives at**, the sign apart, if it is in range. -/
def stepped? : Option Binary64.Finite := scaledBy? n.significand n.shift n.exponent

/-- The integer that is written, if a document keeps it as one. -/
def integer? : Option Document.Number :=
  if n.fraction.1 = [] ∧ n.exponent.isNone then Document.integer? n.negative n.mantissa else none

/-- A double with the sign of a number. -/
def real (negative : Bool) (x : Binary64.Finite) : Document.Number :=
  .real (if negative then x.neg else x)

/-- What is read in a document, if the number is in range. -/
def number? : Option Document.Number := n.integer?.or (n.stepped?.map (real n.negative))

/-! ### Gathering -/

theorem le_ofDigitChars (ds : List Char) (s : Nat) : s ≤ Nat.ofDigitChars 10 ds s := by
  rw [Nat.ofDigitChars_eq_ofDigitChars_zero]
  exact Nat.le_trans (Nat.le_mul_of_pos_left s (Nat.pow_pos (by decide))) (Nat.le_add_right _ _)

/-- **Digits that fit are gathered.** -/
theorem gathered_of_lt {ds : List Char} {s : Nat}
    (h : Nat.ofDigitChars 10 ds s < Document.significandLimit) :
    gathered s ds = (Nat.ofDigitChars 10 ds s, []) := by
  induction ds generalizing s with
  | nil => rfl
  | cons c ds ih =>
    rw [Nat.ofDigitChars_cons] at h ⊢
    rw [gathered, if_pos (Nat.lt_of_le_of_lt (le_ofDigitChars ds _) h)]
    exact ih h

/-- The digits gathered and the digits left are the digits. -/
theorem exists_gathered (s : Nat) (ds : List Char) :
    ∃ kept, ds = kept ++ (gathered s ds).2 ∧ (gathered s ds).1 = Nat.ofDigitChars 10 kept s := by
  induction ds generalizing s with
  | nil => exact ⟨[], rfl, rfl⟩
  | cons c ds ih =>
    rw [gathered]
    split
    · obtain ⟨kept, hds, hs⟩ := ih (10 * s + (c.toNat - '0'.toNat))
      refine ⟨c :: kept, ?_, ?_⟩
      · rw [List.cons_append, ← hds]
      · rw [hs, Nat.ofDigitChars_cons]
    · exact ⟨[], rfl, rfl⟩

theorem isDigit_of_mem_gathered {s : Nat} {ds : List Char} (h : ∀ c ∈ ds, c.isDigit = true) :
    ∀ c ∈ (gathered s ds).2, c.isDigit = true := by
  obtain ⟨kept, hds, -⟩ := exists_gathered s ds
  intro c hc
  exact h c (hds ▸ List.mem_append_right _ hc)

theorem length_gathered_le (s : Nat) (ds : List Char) : (gathered s ds).2.length ≤ ds.length := by
  obtain ⟨kept, hds, -⟩ := exists_gathered s ds
  conv => rhs; rw [hds]
  simp

/-- Where all digits fit, the significand is the exact one. -/
theorem gathered_whole_fraction (h : n.mantissa < Document.significandLimit) :
    n.gatheredWhole = (Nat.ofDigitChars 10 n.whole.1 0, []) ∧
      n.gatheredFraction = (n.mantissa, []) := by
  have hm : n.mantissa = Nat.ofDigitChars 10 n.fraction.1 (Nat.ofDigitChars 10 n.whole.1 0) :=
    Nat.ofDigitChars_append 0
  rw [hm] at h ⊢
  have hwhole : n.gatheredWhole = (Nat.ofDigitChars 10 n.whole.1 0, []) :=
    gathered_of_lt (Nat.lt_of_le_of_lt (le_ofDigitChars _ _) h)
  refine ⟨hwhole, ?_⟩
  rw [gatheredFraction, hwhole]
  exact gathered_of_lt h

/-- Where all digits fit, scaling in steps starts from the exact value. -/
theorem stepped?_of_lt (h : n.mantissa < Document.significandLimit) :
    n.stepped? = scaledBy? n.mantissa (-n.fraction.1.length) n.exponent := by
  obtain ⟨hwhole, hfraction⟩ := n.gathered_whole_fraction h
  rw [stepped?, significand, shift, hwhole, hfraction]
  simp

/-! ### Where the text stops -/

theorem not_isDigit_letter (e : Exponent) : e.letter.isDigit = false := by
  rcases e.letter_eq with h | h <;> rw [h] <;> decide

theorem stops_exponentText (e : Option Exponent) : Stops Char.isDigit (exponentText e) := by
  cases e with
  | none => exact stops_nil
  | some e => exact stops_cons.mpr (not_isDigit_letter e)

end NumberText

end JsonSieve
