import JsonSieve.Document.Printer
import JsonSieve.Document.StringReader
import JsonSieve.Proofs.Text.Utf8

/-!
# Strings are read from their spellings

A character of a string can be written in several ways (`JsonSieve.Document.CharSpelling`):
as it is, and then all of its bytes stand for themselves between quotation marks
(`JsonSieve.Document.IsPlain`), by a letter after a backslash, or by its UTF-16 code in
hexadecimal digits of either case. In all of them the reader adds the bytes of the character
to those that it has gathered (`JsonSieve.Document.CharSpelling.readContent_append`), so
that it arrives at the UTF-8 form of the string, however that is spelled
(`JsonSieve.Document.StringSpelling.exists_readString`).

The written form is one of these spellings (`JsonSieve.Document.stringSpelling_quoted`), and
one in which no control character occurs (`JsonSieve.Document.isPrinted_of_mem_quoted`).
-/

namespace JsonSieve

namespace Document

/-! ### Spellings -/

/-- The letters that make an escape by themselves, and the characters that they stand
for. -/
def shortForms : List (Char × Char) :=
  [('"', '"'), ('\\', '\\'), ('/', '/'), ('b', Char.ofNat 0x08), ('f', Char.ofNat 0x0C),
    ('n', '\n'), ('r', '\r'), ('t', '\t')]

/-- A hexadecimal digit of either case. -/
def IsHexDigit (n : Nat) (c : Char) : Prop := c = Nat.digitChar n ∨ c = (Nat.digitChar n).toUpper

instance (n : Nat) (c : Char) : Decidable (IsHexDigit n c) := inferInstanceAs (Decidable (_ ∨ _))

/-- **The escapes of a code unit**: `\u` and four hexadecimal digits. -/
inductive UnitSpelling (n : Nat) : List UInt8 → Prop
  /-- Each digit is of either case. -/
  | digits {a b c d : Char} (ha : IsHexDigit (n / 0x1000) a) (hb : IsHexDigit (n / 0x100 % 0x10) b)
    (hc : IsHexDigit (n / 0x10 % 0x10) c) (hd : IsHexDigit (n % 0x10) d) :
    UnitSpelling n (['\\', 'u', a, b, c, d].map Ascii.byte)

/-- **The spellings of a character** between quotation marks. -/
inductive CharSpelling (c : Char) : List UInt8 → Prop
  /-- A character stands for itself, unless it ends the string, begins an escape or is a
  control character. -/
  | raw (hquote : c ≠ '"') (hbackslash : c ≠ '\\') (hprinted : 0x20 ≤ c.toNat) :
    CharSpelling c (String.utf8EncodeChar c)
  /-- A few characters have a letter. -/
  | short {letter : Char} (h : (letter, c) ∈ shortForms) :
    CharSpelling c (['\\', letter].map Ascii.byte)
  /-- A character of one code unit can be written by it, -/
  | unit {u : List UInt8} (h : c.toNat < 0x10000) (hu : UnitSpelling c.toNat u) : CharSpelling c u
  /-- and any other by its two surrogates. -/
  | pair {u v : List UInt8} (h : 0x10000 ≤ c.toNat)
    (hu : UnitSpelling (0xD800 + (c.toNat - 0x10000) / 0x400) u)
    (hv : UnitSpelling (0xDC00 + (c.toNat - 0x10000) % 0x400) v) : CharSpelling c (u ++ v)

/-- **The spellings of a text** between quotation marks, character by character. -/
inductive TextSpelling : List Char → List UInt8 → Prop
  /-- The empty text. -/
  | nil : TextSpelling [] []
  /-- Each character is spelled by itself. -/
  | cons {c : Char} {text : List Char} {u v : List UInt8} (hc : CharSpelling c u)
    (h : TextSpelling text v) : TextSpelling (c :: text) (u ++ v)

/-- **The spellings of a string**, in quotation marks. -/
def StringSpelling (s : String) (t : List UInt8) : Prop :=
  ∃ content, TextSpelling s.toList content ∧ t = Ascii.quote :: (content ++ [Ascii.quote])

/-! ### Bytes that stand for themselves -/

/-- A byte that stands for itself between quotation marks. -/
structure IsPlain (b : UInt8) : Prop where
  /-- It does not end the string, -/
  quote : b ≠ Ascii.quote
  /-- it does not begin an escape, -/
  backslash : b ≠ Ascii.backslash
  /-- and it is not a control character. -/
  control : ¬b < Ascii.space

theorem IsPlain.of_le {b : UInt8} (h : 0x80 ≤ b.toNat) : IsPlain b := by
  refine ⟨?_, ?_, fun hlt => ?_⟩
  · rintro rfl
    exact absurd h (by decide)
  · rintro rfl
    exact absurd h (by decide)
  · have hspace : b.toNat < 0x20 := UInt8.lt_iff_toNat_lt.mp hlt
    omega

theorem IsPlain.byte {c : Char} (hquote : c ≠ '"') (hbackslash : c ≠ '\\') (h : 0x20 ≤ c.toNat)
    (h' : c.toNat < 0x80) : IsPlain (Ascii.byte c) := by
  have hbyte : (Ascii.byte c).toNat = c.toNat := Utf8.toNat_ofNat_of_lt (by omega)
  -- the byte of another ASCII character is another byte
  have hne {d : Char} (hd : d.toNat < 0x80) (hcd : c ≠ d) : Ascii.byte c ≠ Ascii.byte d := by
    intro heq
    have hd' : (Ascii.byte d).toNat = d.toNat := Utf8.toNat_ofNat_of_lt (by omega)
    exact hcd (Char.toNat_inj.mp (by rw [← hbyte, heq, hd']))
  refine ⟨hne (by decide) hquote, hne (by decide) hbackslash, fun hlt => ?_⟩
  have hspace : (Ascii.byte c).toNat < 0x20 := UInt8.lt_iff_toNat_lt.mp hlt
  omega

theorem isPlain_of_mem_encodeChar {c : Char} (hquote : c ≠ '"') (hbackslash : c ≠ '\\')
    (h : 0x20 ≤ c.toNat) : ∀ b ∈ String.utf8EncodeChar c, IsPlain b := by
  intro b hb
  rcases Nat.lt_or_ge c.toNat 0x80 with hlt | hge
  · rw [Utf8.encodeChar_of_ascii hlt, List.mem_singleton] at hb
    rw [hb]
    exact .byte hquote hbackslash h hlt
  · exact .of_le (Utf8.le_of_mem_encodeChar hge hb)

theorem readContent_plain {bs : List UInt8} (h : ∀ b ∈ bs, IsPlain b) (content s : List UInt8) :
    readContent content (bs ++ s) = readContent (bs.reverse ++ content) s := by
  induction bs generalizing content with
  | nil => rfl
  | cons b bs ih =>
    rw [List.forall_mem_cons] at h
    rw [List.cons_append, readContent, if_neg h.1.quote, if_neg h.1.backslash, if_neg h.1.control,
      ih h.2, List.reverse_cons, List.append_assoc, List.singleton_append]

/-! ### Escapes are read -/

theorem readContent_escape {c : Char} {s r : List UInt8} (h : readEscape s = .ok (c, r))
    (content : List UInt8) :
    readContent content (Ascii.backslash :: s) =
      readContent ((String.utf8EncodeChar c).reverse ++ content) r := by
  rw [readContent, if_neg (by decide), if_pos rfl]
  split
  · simp_all
  · rename_i c' r' h'
    obtain ⟨rfl, rfl⟩ : c = c' ∧ r = r' := by simpa [h] using h'
    rfl

theorem hexDigit?_byte {n : Nat} (hn : n < 0x10) {c : Char} (h : IsHexDigit n c) :
    Ascii.hexDigit? (Ascii.byte c) = some n := by
  have hlower : ∀ n < 0x10, Ascii.hexDigit? (Ascii.byte (Nat.digitChar n)) = some n := by decide
  have hupper : ∀ n < 0x10, Ascii.hexDigit? (Ascii.byte (Nat.digitChar n).toUpper) = some n := by
    decide
  rcases h with rfl | rfl
  · exact hlower n hn
  · exact hupper n hn

/-- **The digits of an escape are read** as the code unit that they write. -/
theorem UnitSpelling.exists_readCodeUnit {n : Nat} (hn : n < 0x10000) {u : List UInt8}
    (h : UnitSpelling n u) :
    ∃ ds, u = Ascii.backslash :: Ascii.byte 'u' :: ds ∧
      ∀ s, readCodeUnit (ds ++ s) = .ok (n, s) := by
  obtain @⟨a, b, c, d, ha, hb, hc, hd⟩ := h
  refine ⟨[a, b, c, d].map Ascii.byte, rfl, fun s => ?_⟩
  have hunit : codeUnit? (Ascii.byte a) (Ascii.byte b) (Ascii.byte c) (Ascii.byte d) = some n := by
    rw [codeUnit?, hexDigit?_byte (by omega) ha, hexDigit?_byte (by omega) hb,
      hexDigit?_byte (by omega) hc, hexDigit?_byte (by omega) hd]
    refine congrArg some ?_
    omega
  simp only [List.map_cons, List.map_nil, List.cons_append, List.nil_append]
  rw [readCodeUnit, hunit]

theorem readEscape_short {letter c : Char} (h : (letter, c) ∈ shortForms) (r : List UInt8) :
    readEscape (Ascii.byte letter :: r) = .ok (c, r) := by
  have hshort : shortEscape? (Ascii.byte letter) = some c := by
    simp only [shortForms, List.mem_cons, List.not_mem_nil, or_false, Prod.mk.injEq] at h
    rcases h with ⟨rfl, rfl⟩ | ⟨rfl, rfl⟩ | ⟨rfl, rfl⟩ | ⟨rfl, rfl⟩ | ⟨rfl, rfl⟩ | ⟨rfl, rfl⟩ |
      ⟨rfl, rfl⟩ | ⟨rfl, rfl⟩ <;> rfl
  rw [readEscape, hshort]

/-- A backslash and a `u` begin an escape by a code unit. -/
theorem readEscape_unit (r : List UInt8) :
    readEscape (Ascii.byte 'u' :: r) = readUnicode r := by
  have hshort : shortEscape? (Ascii.byte 'u') = none := by decide
  rw [readEscape, hshort]
  dsimp only
  rw [if_pos rfl]

theorem isTrailing_eq_true_iff {n : Nat} : isTrailing n = true ↔ 0xDC00 ≤ n ∧ n ≤ 0xDFFF := by
  rw [isTrailing, Bool.and_eq_true, decide_eq_true_eq, decide_eq_true_eq]

theorem isLeading_eq_true_iff {n : Nat} : isLeading n = true ↔ 0xD800 ≤ n ∧ n ≤ 0xDBFF := by
  rw [isLeading, Bool.and_eq_true, decide_eq_true_eq, decide_eq_true_eq]

/-- The code of a character is no surrogate. -/
theorem not_surrogate (c : Char) : ¬(0xD800 ≤ c.toNat ∧ c.toNat ≤ 0xDFFF) := by
  rintro ⟨hle, hge⟩
  rcases c.valid with h | ⟨h, -⟩
  · exact absurd (show c.toNat < 0xD800 from h) (Nat.not_lt_of_le hle)
  · exact absurd (show 0xDFFF < c.toNat from h) (Nat.not_lt_of_le hge)

/-- A code unit that is a character is read as this character. -/
theorem readUnicode_unit {c : Char} {s r : List UInt8} (h : readCodeUnit s = .ok (c.toNat, r)) :
    readUnicode s = .ok (c, r) := by
  have hc := not_surrogate c
  rw [readUnicode, h]
  dsimp only
  rw [if_neg fun ht => hc (by have := isTrailing_eq_true_iff.mp ht; omega),
    if_neg fun hl => hc (by have := isLeading_eq_true_iff.mp hl; omega), Char.ofNat_toNat]

/-- Two surrogates are read as the character that they make. -/
theorem readUnicode_pair {c : Char} (hc : 0x10000 ≤ c.toNat) {s t r : List UInt8}
    (hs : readCodeUnit s = .ok (0xD800 + (c.toNat - 0x10000) / 0x400,
      Ascii.backslash :: Ascii.byte 'u' :: t))
    (ht : readCodeUnit t = .ok (0xDC00 + (c.toNat - 0x10000) % 0x400, r)) :
    readUnicode s = .ok (c, r) := by
  have hlt := Utf8.toNat_lt c
  have hcode : 0x10000 + 0x400 * (0xD800 + (c.toNat - 0x10000) / 0x400 - 0xD800) +
      (0xDC00 + (c.toNat - 0x10000) % 0x400 - 0xDC00) = c.toNat := by omega
  rw [readUnicode, hs]
  dsimp only
  rw [if_neg fun h => by have := isTrailing_eq_true_iff.mp h; omega,
    if_pos (isLeading_eq_true_iff.mpr (by omega)), readTrailing, if_neg (not_not_intro rfl),
    if_neg (not_not_intro rfl), ht]
  dsimp only
  rw [if_pos (isTrailing_eq_true_iff.mpr (by omega)), hcode, Char.ofNat_toNat]

/-! ### Strings are read -/

/-- **A character is read as its bytes**, in whatever way it is spelled. -/
theorem CharSpelling.readContent_append {c : Char} {u : List UInt8} (h : CharSpelling c u)
    (content s : List UInt8) :
    readContent content (u ++ s) =
      readContent ((String.utf8EncodeChar c).reverse ++ content) s := by
  cases h with
  | raw hquote hbackslash hprinted =>
    exact readContent_plain (isPlain_of_mem_encodeChar hquote hbackslash hprinted) content s
  | short h => exact readContent_escape (readEscape_short h s) content
  | unit hc hu =>
    obtain ⟨ds, rfl, hread⟩ := hu.exists_readCodeUnit hc
    rw [List.cons_append, List.cons_append]
    exact readContent_escape ((readEscape_unit _).trans (readUnicode_unit (hread s))) content
  | pair hc hu hv =>
    have hlt := Utf8.toNat_lt c
    obtain ⟨ds, rfl, hread⟩ := hu.exists_readCodeUnit (by omega)
    obtain ⟨ds', rfl, hread'⟩ := hv.exists_readCodeUnit (by omega)
    have hpair := readUnicode_pair hc (hread _) (hread' s)
    rw [List.append_assoc, List.cons_append, List.cons_append, List.cons_append, List.cons_append]
    exact readContent_escape ((readEscape_unit _).trans hpair) content

theorem TextSpelling.readContent_append {text : List Char} {t : List UInt8}
    (h : TextSpelling text t) (content r : List UInt8) :
    readContent content (t ++ Ascii.quote :: r) = .ok (content.reverse ++ Utf8.encode text, r) := by
  induction h generalizing content with
  | nil =>
    rw [List.nil_append, readContent, if_pos rfl, Utf8.encode_nil, List.append_nil]
  | cons hc h ih =>
    rw [List.append_assoc, hc.readContent_append, ih, List.reverse_append, List.reverse_reverse,
      Utf8.encode_cons, List.append_assoc]

/-- **A string is read** from each of its spellings, whatever comes after it. -/
theorem StringSpelling.exists_readString {s : String} {t : List UInt8} (h : StringSpelling s t) :
    ∃ t', t = Ascii.quote :: t' ∧ ∀ r, readString (t' ++ r) = .ok (s, r) := by
  obtain ⟨content, hcontent, rfl⟩ := h
  refine ⟨content ++ [Ascii.quote], rfl, fun r => ?_⟩
  rw [List.append_assoc, List.singleton_append, readString, hcontent.readContent_append,
    List.reverse_nil, List.nil_append]
  dsimp only
  rw [Utf8.decode_encode]
  dsimp only
  rw [String.ofList_toList]

/-! ### The written form -/

/-- Whether a character is no control character. -/
def isPrinted (c : Char) : Bool := 0x20 ≤ c.toNat

theorem isPrinted_iff {c : Char} : isPrinted c = true ↔ 0x20 ≤ c.toNat := decide_eq_true_iff

theorem isPrinted_control : ∀ n < 0x20,
    ['\\', 'u', '0', '0', Nat.digitChar (n / 16), Nat.digitChar (n % 16)].all isPrinted = true := by
  decide

theorem encode_control : ∀ n < 0x20,
    Utf8.encode ['\\', 'u', '0', '0', Nat.digitChar (n / 16), Nat.digitChar (n % 16)] =
      ['\\', 'u', '0', '0', Nat.digitChar (n / 16), Nat.digitChar (n % 16)].map Ascii.byte := by
  decide

/-- A control character is written by its code. -/
theorem unitSpelling_control {n : Nat} (h : n < 0x20) :
    UnitSpelling n (Utf8.encode
      ['\\', 'u', '0', '0', Nat.digitChar (n / 16), Nat.digitChar (n % 16)]) := by
  rw [encode_control n h]
  refine .digits (Or.inl ?_) (Or.inl ?_) (Or.inl ?_) (Or.inl rfl)
  · rw [Nat.div_eq_of_lt (by omega)]
    rfl
  · rw [Nat.div_eq_of_lt (by omega)]
    rfl
  · rw [Nat.mod_eq_of_lt (by omega)]

/-- **A character is written in one of its spellings**, -/
theorem charSpelling_escaped (c : Char) : CharSpelling c (Utf8.encode (escaped c)) := by
  unfold escaped
  split
  · rename_i hquote
    subst hquote
    exact .short (show ('"', '"') ∈ shortForms by decide)
  rename_i hquote
  split
  · rename_i hbackslash
    subst hbackslash
    exact .short (show ('\\', '\\') ∈ shortForms by decide)
  rename_i hbackslash
  split
  · rename_i hprinted
    rw [Utf8.encode_cons, Utf8.encode_nil, List.append_nil]
    exact .raw hquote hbackslash hprinted
  rename_i hcontrol
  -- five control characters have a letter, the others are written by their code
  have hletter {d : Char} {n : Nat} (hd : d.toNat = n) (hn : c.toNat = n) : d = c :=
    Char.toNat_inj.mp (hd.trans hn.symm)
  split
  · rename_i hn
    obtain rfl := hletter (d := Char.ofNat 0x08) rfl hn
    exact .short (show ('b', Char.ofNat 0x08) ∈ shortForms by decide)
  split
  · rename_i hn
    obtain rfl := hletter (d := '\t') rfl hn
    exact .short (show ('t', '\t') ∈ shortForms by decide)
  split
  · rename_i hn
    obtain rfl := hletter (d := '\n') rfl hn
    exact .short (show ('n', '\n') ∈ shortForms by decide)
  split
  · rename_i hn
    obtain rfl := hletter (d := Char.ofNat 0x0C) rfl hn
    exact .short (show ('f', Char.ofNat 0x0C) ∈ shortForms by decide)
  split
  · rename_i hn
    obtain rfl := hletter (d := '\r') rfl hn
    exact .short (show ('r', '\r') ∈ shortForms by decide)
  · exact .unit (by omega) (unitSpelling_control (Nat.lt_of_not_le hcontrol))

/-- **and without control characters.** -/
theorem isPrinted_of_mem_escaped (c : Char) : ∀ d ∈ escaped c, isPrinted d = true := by
  unfold escaped
  split
  · exact List.all_eq_true.mp rfl
  split
  · exact List.all_eq_true.mp rfl
  split
  · rename_i hprinted
    exact List.forall_mem_singleton.mpr (isPrinted_iff.mpr hprinted)
  rename_i hcontrol
  iterate 5
    split
    · exact List.all_eq_true.mp rfl
  exact List.all_eq_true.mp (isPrinted_control c.toNat (Nat.lt_of_not_le hcontrol))

theorem textSpelling_flatMap_escaped (text : List Char) :
    TextSpelling text (Utf8.encode (text.flatMap escaped)) := by
  induction text with
  | nil => exact .nil
  | cons c text ih =>
    rw [List.flatMap_cons, Utf8.encode_append]
    exact .cons (charSpelling_escaped c) ih

/-- **The written form of a string is one of its spellings**, -/
theorem stringSpelling_quoted (s : String) : StringSpelling s (Utf8.encode (quoted s)) := by
  refine ⟨_, textSpelling_flatMap_escaped s.toList, ?_⟩
  rw [quoted, Utf8.encode_cons, Utf8.encode_append]
  rfl

/-- and no control character is written. -/
theorem isPrinted_of_mem_quoted (s : String) : ∀ c ∈ quoted s, isPrinted c = true := by
  intro c hc
  rw [quoted, List.mem_cons, List.mem_append, List.mem_singleton, List.mem_flatMap] at hc
  rcases hc with rfl | ⟨d, -, hd⟩ | rfl
  · rfl
  · exact isPrinted_of_mem_escaped d c hd
  · rfl

end Document

end JsonSieve
