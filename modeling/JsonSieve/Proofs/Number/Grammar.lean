import JsonSieve.Proofs.Number.Text

/-!
# The grammar of number literals

A number literal is a sign, which may be left out, and then a name or a decimal numeral. The
names are `nan`, `inf` and `infinity`, with letters of either case. A decimal numeral has
digits with at most one point among them, at least one digit, and an exponent that may be
left out (`JsonSieve.Numeral.Unsigned`).

`JsonSieve.Numeral.Spelling` says so without reading, and a text is read as a number exactly
if it is a spelling of one (`JsonSieve.Numeral.ofChars?_eq_some_iff`). Where a name or a run
of digits ends, what follows does not go on with it; and no decimal numeral begins as a name
does.

The numbers of documents are among the decimal numerals (`JsonSieve.NumberText.spelling`),
which may also have a plus, a point before or after all digits, and zeros at the start. As a
literal a number of a document stands for the nearest double
(`JsonSieve.NumberText.ofChars?_text`).
-/

namespace JsonSieve

namespace Numeral

open NumberText (Digits Exponent exponentText exponentValue)

/-! ### Literals -/

/-- The signs, one of which is left out. -/
def signs : List (List Char) := [[], ['+'], ['-']]

/-- **A decimal numeral without a sign**, part by part. -/
structure Unsigned where
  /-- The digits before the point. -/
  whole : Digits
  /-- The point, if there is one. -/
  point : List Char
  /-- The digits after the point. -/
  fraction : Digits
  /-- The exponent, if there is one. -/
  exponent : Option Exponent
  /-- Only after a point there are digits after the point. -/
  point_eq : point = ['.'] ∨ point = [] ∧ fraction.1 = []
  /-- There is a digit. -/
  digits_ne_nil : whole.1 ++ fraction.1 ≠ []

namespace Unsigned

variable (u : Unsigned)

/-- The text after the digits before the point. -/
def tail : List Char := u.point ++ (u.fraction.1 ++ exponentText u.exponent)

/-- The text of a numeral. -/
def text : List Char := u.whole.1 ++ u.tail

/-- All digits, as a number. -/
def mantissa : Nat := Nat.ofDigitChars 10 (u.whole.1 ++ u.fraction.1) 0

/-- The power of ten that the digits are multiplied by. -/
def scale : Int := exponentValue u.exponent - u.fraction.1.length

end Unsigned

/-- **The spellings of a number as a literal.** -/
inductive Spelling : Numeral → List Char → Prop
  /-- Not a number. -/
  | nan {sign name : List Char} (hsign : sign ∈ signs)
    (hname : name.map Char.toLower = ['n', 'a', 'n']) : Spelling .nan (sign ++ name)
  /-- An infinity, which has two names. -/
  | infinity {sign name : List Char} (hsign : sign ∈ signs)
    (hname : name.map Char.toLower = ['i', 'n', 'f'] ∨
      name.map Char.toLower = ['i', 'n', 'f', 'i', 'n', 'i', 't', 'y']) :
    Spelling (.infinity (sign == ['-'])) (sign ++ name)
  /-- A decimal numeral. -/
  | decimal {sign : List Char} (hsign : sign ∈ signs) (u : Unsigned) :
    Spelling (.decimal (sign == ['-']) u.mantissa u.scale) (sign ++ u.text)

/-! ### Signs -/

/-- The characters of signs. -/
def isSign (c : Char) : Bool := c == '-' || c == '+'

theorem splitSign_of_stops {t : List Char} (h : Stops isSign t) : splitSign t = (false, t) := by
  cases t with
  | nil => rfl
  | cons c r =>
    obtain ⟨hminus, hplus⟩ : c ≠ '-' ∧ c ≠ '+' := by simpa [isSign] using stops_cons.mp h
    rw [splitSign]
    · rintro r' ⟨⟩
      exact hminus rfl
    · rintro r' ⟨⟩
      exact hplus rfl

theorem splitSign_append {sign t : List Char} (hsign : sign ∈ signs) (h : Stops isSign t) :
    splitSign (sign ++ t) = (sign == ['-'], t) := by
  simp only [signs, List.mem_cons, List.not_mem_nil, or_false] at hsign
  rcases hsign with rfl | rfl | rfl
  · exact splitSign_of_stops h
  · rfl
  · rfl

theorem exists_sign (t : List Char) :
    ∃ sign ∈ signs, t = sign ++ (splitSign t).2 ∧ (splitSign t).1 = (sign == ['-']) := by
  unfold splitSign
  split
  · exact ⟨['-'], by simp [signs], rfl, rfl⟩
  · exact ⟨['+'], by simp [signs], rfl, rfl⟩
  · exact ⟨[], by simp [signs], rfl, rfl⟩

theorem isSign_eq_false_of_isDigit {c : Char} (h : c.isDigit = true) : isSign c = false := by
  rw [← Bool.not_eq_true]
  intro hsign
  simp only [isSign, Bool.or_eq_true, beq_iff_eq] at hsign
  rcases hsign with rfl | rfl <;> exact absurd h (by decide)

theorem stops_isSign_of_digits {ds : Digits} (hne : ds.1 ≠ []) : Stops isSign ds.1 := by
  obtain ⟨c, r, hds, hc⟩ := NumberText.exists_cons_of_isDigit hne
  rw [hds, stops_cons]
  exact isSign_eq_false_of_isDigit hc

/-! ### Exponents -/

/-- The digits at the start of a text. -/
def leadingDigits (t : List Char) : Digits :=
  ⟨t.takeWhile Char.isDigit, fun _ hc => List.mem_takeWhile_imp hc⟩

/-- What is read as the digits of an exponent are digits, after a sign. -/
theorem exists_of_exponentDigits? {t : List Char} {e : Int} (h : exponentDigits? t = some e) :
    ∃ sign ∈ signs, ∃ ds : Digits, ds.1 ≠ [] ∧ sign ++ ds.1 = t ∧
      (if sign == ['-'] then -(Nat.ofDigitChars 10 ds.1 0 : Int)
        else Nat.ofDigitChars 10 ds.1 0) = e := by
  obtain ⟨sign, hsign, ht, hnegative⟩ := exists_sign t
  unfold exponentDigits? at h
  dsimp only at h
  split at h
  · cases h
  · rename_i hdigits
    simp only [not_or, List.isEmpty_iff, List.any_eq_true, not_exists, not_and] at hdigits
    rw [hnegative] at h
    exact ⟨sign, hsign, ⟨(splitSign t).2, fun d hd => by simpa using hdigits.2 d hd⟩, hdigits.1,
      ht.symm, Option.some.inj h⟩

/-- The digits of an exponent are read after its sign. -/
theorem exponentDigits?_append (e : Exponent) :
    exponentDigits? (e.sign ++ e.digits.1) = some e.value := by
  have hdigits : ¬(e.digits.1.isEmpty = true ∨ (e.digits.1.any fun c => !c.isDigit) = true) := by
    rw [List.isEmpty_iff, List.any_eq_true]
    rintro (h | ⟨c, hc, hnot⟩)
    · exact e.digits_ne_nil h
    · simp [e.digits.2 c hc] at hnot
  have hstops : Stops isSign e.digits.1 := stops_isSign_of_digits e.digits_ne_nil
  simp only [exponentDigits?, splitSign_append e.sign_mem hstops, if_neg hdigits]
  rfl

/-- **An exponent is read as it is spelled.** -/
theorem exponent?_eq_some_iff {t : List Char} {e : Int} :
    exponent? t = some e ↔ ∃ x, exponentText x = t ∧ exponentValue x = e := by
  constructor
  · intro h
    cases t with
    | nil => exact ⟨none, rfl, Option.some.inj h⟩
    | cons c r =>
      rw [exponent?] at h
      split at h
      · rename_i hletter
        obtain ⟨sign, hsign, ds, hne, rfl, he⟩ := exists_of_exponentDigits? h
        exact ⟨some ⟨c, sign, ds, by simpa using hletter, hsign, hne⟩, rfl, he⟩
      · cases h
  · rintro ⟨_ | x, rfl, rfl⟩
    · rfl
    · rw [exponentText, Exponent.text, exponent?, if_pos x.letter_eq]
      exact exponentDigits?_append x

/-! ### Decimal numerals -/

namespace Unsigned

variable (u : Unsigned)

theorem stops_tail : Stops Char.isDigit u.tail := by
  rw [tail]
  rcases u.point_eq with h | ⟨h, hfraction⟩
  · rw [h]
    exact stops_cons.mpr (by decide)
  · rw [h, hfraction]
    exact NumberText.stops_exponentText u.exponent

theorem splitDigits_text : splitDigits u.text = (u.whole.1, u.tail) := by
  rw [text, splitDigits, takeWhile_append_of_stops u.whole.2 u.stops_tail,
    dropWhile_append_of_stops u.whole.2 u.stops_tail]

theorem splitFraction_tail : splitFraction u.tail = (u.fraction.1, exponentText u.exponent) := by
  have hstops := NumberText.stops_exponentText u.exponent
  rw [tail]
  rcases u.point_eq with h | ⟨h, hfraction⟩
  · rw [h, List.singleton_append, splitFraction, splitDigits,
      takeWhile_append_of_stops u.fraction.2 hstops, dropWhile_append_of_stops u.fraction.2 hstops]
  · -- no point: the text goes on with the letter of an exponent, or is at its end
    rw [h, hfraction]
    cases u.exponent with
    | none => rfl
    | some e =>
      have hpoint : e.letter ≠ '.' := fun h => absurd (h ▸ e.letter_mem) (by decide)
      rw [List.nil_append, List.nil_append, exponentText, Exponent.text, splitFraction]
      exact fun r h => hpoint (List.cons.inj h).1

/-- A numeral begins with a digit or with the point. -/
theorem exists_text_eq_cons : ∃ c r, u.text = c :: r ∧ (c.isDigit = true ∨ c = '.') := by
  rw [text, tail]
  by_cases hwhole : u.whole.1 = []
  · have hpoint : u.point = ['.'] := by
      refine u.point_eq.resolve_right fun h => u.digits_ne_nil ?_
      rw [hwhole, h.2]
      rfl
    rw [hwhole, hpoint]
    exact ⟨'.', _, rfl, Or.inr rfl⟩
  · obtain ⟨c, ds, hds, hc⟩ := NumberText.exists_cons_of_isDigit hwhole
    rw [hds]
    exact ⟨c, _, rfl, Or.inl hc⟩

end Unsigned

/-- A text begins with a point and digits, or with neither. -/
theorem exists_splitFraction (t : List Char) :
    ∃ (point : List Char) (fraction : Digits) (r : List Char),
      (point = ['.'] ∨ point = [] ∧ fraction.1 = []) ∧
        splitFraction t = (fraction.1, r) ∧ point ++ (fraction.1 ++ r) = t := by
  unfold splitFraction
  split
  · rename_i s
    exact ⟨['.'], leadingDigits s, _, Or.inl rfl, rfl,
      congrArg ('.' :: ·) List.takeWhile_append_dropWhile⟩
  · exact ⟨[], ⟨[], List.forall_mem_nil _⟩, _, Or.inr ⟨rfl, rfl⟩, rfl, rfl⟩

/-- What is read as a decimal numeral is one. -/
theorem exists_of_decimal? {negative : Bool} {t : List Char} {n : Numeral}
    (h : decimal? negative t = some n) :
    ∃ u : Unsigned, u.text = t ∧ .decimal negative u.mantissa u.scale = n := by
  unfold decimal? splitDigits at h
  dsimp only at h
  have ht : (leadingDigits t).1 ++ t.dropWhile Char.isDigit = t :=
    List.takeWhile_append_dropWhile
  obtain ⟨point, fraction, r, hpoint, hsplit, hr⟩ := exists_splitFraction (t.dropWhile Char.isDigit)
  rw [hsplit] at h
  dsimp only at h
  split at h
  · cases h
  · rename_i hne
    obtain ⟨e, he, rfl⟩ := Option.map_eq_some_iff.mp h
    obtain ⟨x, rfl, rfl⟩ := exponent?_eq_some_iff.mp he
    refine ⟨⟨leadingDigits t, point, fraction, x, hpoint, fun hnil => hne ?_⟩, ?_, rfl⟩
    · rw [List.append_eq_nil_iff] at hnil
      exact ⟨List.isEmpty_iff.mpr hnil.1, List.isEmpty_iff.mpr hnil.2⟩
    · rw [Unsigned.text, Unsigned.tail, hr, ht]

/-- **A decimal numeral is read as it is spelled.** -/
theorem decimal?_text (negative : Bool) (u : Unsigned) :
    decimal? negative u.text = some (.decimal negative u.mantissa u.scale) := by
  have hne : ¬(u.whole.1.isEmpty = true ∧ u.fraction.1.isEmpty = true) := by
    rintro ⟨hwhole, hfraction⟩
    refine u.digits_ne_nil ?_
    rw [List.isEmpty_iff.mp hwhole, List.isEmpty_iff.mp hfraction]
    rfl
  simp only [decimal?, u.splitDigits_text, u.splitFraction_tail, if_neg hne,
    exponent?_eq_some_iff.mpr ⟨u.exponent, rfl, rfl⟩, Option.map_some]
  rfl

/-! ### Names -/

theorem toLower_eq_self {c : Char} (h : c.isDigit = true) : c.toLower = c := by
  have hrange := Text.toNat_of_isDigit h
  have hupper : ¬(c.val ≥ 'A'.val ∧ c.val ≤ 'Z'.val) := by
    simp only [ge_iff_le, UInt32.le_iff_toNat_le, not_and]
    intro hle
    have : (65 : Nat) ≤ c.toNat := hle
    omega
  exact dif_neg hupper

/-- A name does not begin with a sign. -/
theorem stops_isSign_of_toLower {name letters : List Char} {c : Char}
    (h : name.map Char.toLower = c :: letters) (hc : isSign c = false) : Stops isSign name := by
  cases name with
  | nil => exact stops_nil
  | cons d name =>
    obtain rfl : d.toLower = c := (List.cons.inj h).1
    rw [stops_cons, ← Bool.not_eq_true]
    intro hd
    simp only [isSign, Bool.or_eq_true, beq_iff_eq] at hd
    rcases hd with rfl | rfl <;> cases hc

/-- A numeral begins neither with a sign nor as a name does. -/
theorem Unsigned.stops_text (u : Unsigned) :
    Stops isSign u.text ∧
      ∀ c letters, u.text.map Char.toLower = c :: letters → c ≠ 'n' ∧ c ≠ 'i' := by
  obtain ⟨d, r, htext, hd⟩ := u.exists_text_eq_cons
  have hlower : d.toLower = d ∧ isSign d = false ∧ d ≠ 'n' ∧ d ≠ 'i' := by
    rcases hd with hd | rfl
    · refine ⟨toLower_eq_self hd, isSign_eq_false_of_isDigit hd, ?_, ?_⟩
      · rintro rfl
        exact absurd hd (by decide)
      · rintro rfl
        exact absurd hd (by decide)
    · exact ⟨by decide, by decide, by decide, by decide⟩
  rw [htext]
  refine ⟨stops_cons.mpr hlower.2.1, fun c letters h => ?_⟩
  rw [List.map_cons, hlower.1] at h
  rw [← (List.cons.inj h).1]
  exact hlower.2.2

/-! ### Reading -/

/-- **A text is read as a number exactly if it is a spelling of it.** -/
theorem ofChars?_eq_some_iff {t : List Char} {n : Numeral} :
    ofChars? t = some n ↔ n.Spelling t := by
  constructor
  · intro h
    obtain ⟨sign, hsign, ht, hnegative⟩ := exists_sign t
    unfold ofChars? at h
    dsimp only at h
    rw [ht]
    split at h
    · rename_i hname
      cases h
      exact .nan hsign hname
    split at h
    · rename_i hname
      cases h
      rw [hnegative]
      exact .infinity hsign hname
    · obtain ⟨u, hu, rfl⟩ := exists_of_decimal? h
      rw [hnegative, ← hu]
      exact .decimal hsign u
  · intro h
    cases h with
    | nan hsign hname =>
      have hstops := stops_isSign_of_toLower hname (by decide)
      simp [ofChars?, splitSign_append hsign hstops, hname]
    | infinity hsign hname =>
      have hstops := hname.elim (fun h => stops_isSign_of_toLower h (by decide))
        fun h => stops_isSign_of_toLower h (by decide)
      rcases hname with hname | hname <;>
        simp [ofChars?, splitSign_append hsign hstops, hname]
    | decimal hsign u =>
      obtain ⟨hstops, hhead⟩ := u.stops_text
      have hnan : u.text.map Char.toLower ≠ ['n', 'a', 'n'] := fun h => (hhead _ _ h).1 rfl
      have hinfinity : ¬(u.text.map Char.toLower = ['i', 'n', 'f'] ∨
          u.text.map Char.toLower = ['i', 'n', 'f', 'i', 'n', 'i', 't', 'y']) := by
        rintro (h | h) <;> exact (hhead _ _ h).2 rfl
      simp only [ofChars?, splitSign_append hsign hstops, if_neg hnan, if_neg hinfinity]
      exact decimal?_text _ u

end Numeral

/-! ### Characters -/

namespace NumberText

/-- The characters of numbers. -/
def IsNumberChar (c : Char) : Prop := c.isDigit = true ∨ c ∈ ['-', '+', '.', 'e', 'E']

theorem isNumberChar_sign {sign : List Char} (h : sign ∈ Numeral.signs) :
    ∀ c ∈ sign, IsNumberChar c := by
  simp only [Numeral.signs, List.mem_cons, List.not_mem_nil, or_false] at h
  rcases h with rfl | rfl | rfl
  · exact List.forall_mem_nil _
  · exact List.forall_mem_singleton.mpr (Or.inr (by decide))
  · exact List.forall_mem_singleton.mpr (Or.inr (by decide))

theorem isNumberChar_digits (ds : Digits) : ∀ c ∈ ds.1, IsNumberChar c :=
  fun c hc => Or.inl (ds.2 c hc)

theorem isNumberChar_exponentText (e : Option Exponent) :
    ∀ c ∈ exponentText e, IsNumberChar c := by
  cases e with
  | none => exact List.forall_mem_nil _
  | some e =>
    rw [exponentText, Exponent.text, List.forall_mem_cons, List.forall_mem_append]
    refine ⟨Or.inr ?_, isNumberChar_sign e.sign_mem, isNumberChar_digits e.digits⟩
    rcases e.letter_eq with h | h <;> rw [h] <;> decide

end NumberText

namespace Numeral

open NumberText

theorem Unsigned.isNumberChar_text (u : Unsigned) : ∀ c ∈ u.text, IsNumberChar c := by
  have hpoint : ∀ c ∈ u.point, IsNumberChar c := by
    rcases u.point_eq with h | ⟨h, -⟩ <;> rw [h]
    · exact List.forall_mem_singleton.mpr (Or.inr (by decide))
    · exact List.forall_mem_nil _
  rw [Unsigned.text, Unsigned.tail]
  simp only [List.forall_mem_append]
  exact ⟨isNumberChar_digits u.whole, hpoint, isNumberChar_digits u.fraction,
    isNumberChar_exponentText u.exponent⟩

/-- **A literal that is finite has the characters of numbers only.** -/
theorem Spelling.isNumberChar {text : List Char} {negative : Bool} {m : Nat} {e : Int}
    (h : (Numeral.decimal negative m e).Spelling text) : ∀ c ∈ text, IsNumberChar c := by
  cases h with
  | decimal hsign u =>
    exact List.forall_mem_append.mpr ⟨isNumberChar_sign hsign, u.isNumberChar_text⟩

end Numeral

/-! ### Numbers of documents -/

namespace NumberText

variable (n : NumberText)

/-- **A number without its sign**, as a decimal numeral: it has a point only before digits. -/
def toUnsigned : Numeral.Unsigned where
  whole := n.whole
  point := if n.fraction.1 = [] then [] else ['.']
  fraction := n.fraction
  exponent := n.exponent
  point_eq := by
    by_cases h : n.fraction.1 = []
    · exact Or.inr ⟨if_pos h, h⟩
    · exact Or.inl (if_neg h)
  digits_ne_nil := List.append_ne_nil_of_left_ne_nil n.whole_ne_nil _

theorem text_toUnsigned : n.toUnsigned.text = n.unsigned := by
  have hfraction : (if n.fraction.1 = [] then [] else ['.']) ++ n.fraction.1 =
      fractionText n.fraction.1 := by
    cases n.fraction.1 with
    | nil => rfl
    | cons c ds => rfl
  rw [unsigned, tail, ← hfraction, List.append_assoc]
  rfl

/-- **A number is spelled as literals are.** -/
theorem spelling : (Numeral.decimal n.negative n.mantissa n.scale).Spelling n.text := by
  have hminus : ['-'] ∈ Numeral.signs := by decide
  have hnone : [] ∈ Numeral.signs := by decide
  rw [text, ← n.text_toUnsigned]
  cases n.negative with
  | true => exact .decimal hminus n.toUnsigned
  | false => exact .decimal hnone n.toUnsigned

theorem isNumberChar_text : ∀ c ∈ n.text, IsNumberChar c := n.spelling.isNumberChar

/-- **A number is a literal for the nearest double.** -/
theorem ofChars?_text :
    Binary64.ofChars? n.text = some (.ofDecimal n.negative n.mantissa n.scale) := by
  rw [Binary64.ofChars?, Numeral.ofChars?_eq_some_iff.mpr n.spelling]
  rfl

end NumberText

end JsonSieve
