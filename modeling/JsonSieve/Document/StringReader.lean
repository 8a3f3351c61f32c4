import JsonSieve.Document.Failure
import JsonSieve.Text.Utf8

/-!
# Reading the strings of a document

A string is read byte by byte from its opening quotation mark on. The bytes
between the quotation marks are kept as they are, escapes are replaced by the
UTF-8 form of the character they stand for, and what comes out is checked to be
UTF-8 as a whole when the string is closed (`readString`).

An escape `\u` gives a UTF-16 code unit. A leading surrogate must be followed by
the escape of a trailing one, and a trailing one may not stand alone.
-/

namespace JsonSieve

namespace Document

/-! ### Escapes -/

/-- The code unit that four hexadecimal digits write. -/
def codeUnit? (a b c d : UInt8) : Option Nat := do
  let w ← Ascii.hexDigit? a
  let x ← Ascii.hexDigit? b
  let y ← Ascii.hexDigit? c
  let z ← Ascii.hexDigit? d
  return 16 * (16 * (16 * w + x) + y) + z

/-- Reads the four digits of an escape. -/
def readCodeUnit : List UInt8 → Reading Nat
  | a :: b :: c :: d :: r =>
    match codeUnit? a b c d with
    | some unit => .ok (unit, r)
    | none => failed .invalidEscape r
  | _ => failed .endInString []

/-- A code unit that needs a trailing surrogate after it. -/
def isLeading (unit : Nat) : Bool := 0xD800 ≤ unit && unit ≤ 0xDBFF

/-- A code unit that needs a leading surrogate before it. -/
def isTrailing (unit : Nat) : Bool := 0xDC00 ≤ unit && unit ≤ 0xDFFF

/-- Reads the escape of a trailing surrogate; with `leading` before it, it makes
one character. -/
def readTrailing (leading : Nat) : List UInt8 → Reading Char
  | [] => failed .endInString []
  | b :: r =>
    if b ≠ Ascii.backslash then failed .unexpectedEndOfEscape r
    else match r with
      | [] => failed .endInString []
      | c :: r =>
        if c ≠ Ascii.byte 'u' then failed .unexpectedEndOfEscape r
        else match readCodeUnit r with
          | .error f => .error f
          | .ok (unit, r) =>
            if isTrailing unit then
              .ok (Char.ofNat (0x10000 + 0x400 * (leading - 0xD800) + (unit - 0xDC00)), r)
            else failed .loneSurrogate r

/-- Reads an escape after its `\u`. -/
def readUnicode (s : List UInt8) : Reading Char :=
  match readCodeUnit s with
  | .error f => .error f
  | .ok (unit, r) =>
    if isTrailing unit then failed .loneSurrogate r
    else if isLeading unit then readTrailing unit r
    else .ok (Char.ofNat unit, r)

/-- The character of an escape of one letter. -/
def shortEscape? (b : UInt8) : Option Char :=
  if b = Ascii.quote then some '"'
  else if b = Ascii.backslash then some '\\'
  else if b = Ascii.slash then some '/'
  else if b = Ascii.byte 'b' then some (Char.ofNat 0x08)
  else if b = Ascii.byte 'f' then some (Char.ofNat 0x0C)
  else if b = Ascii.byte 'n' then some '\n'
  else if b = Ascii.byte 'r' then some '\r'
  else if b = Ascii.byte 't' then some '\t'
  else none

/-- Reads an escape after its backslash. -/
def readEscape : List UInt8 → Reading Char
  | [] => failed .endInString []
  | b :: r =>
    match shortEscape? b with
    | some c => .ok (c, r)
    | none => if b = Ascii.byte 'u' then readUnicode r else failed .invalidEscape r

/-! ### What an escape leaves unread -/

theorem length_le_of_readCodeUnit {s r : List UInt8} {unit : Nat}
    (h : readCodeUnit s = .ok (unit, r)) : r.length ≤ s.length := by
  unfold readCodeUnit at h
  split at h
  · split at h
    · cases h
      simp only [List.length_cons]
      omega
    · cases h
  · cases h

theorem length_le_of_readTrailing {leading : Nat} {s r : List UInt8} {c : Char}
    (h : readTrailing leading s = .ok (c, r)) : r.length ≤ s.length := by
  unfold readTrailing at h
  split at h
  · cases h
  · split at h
    · cases h
    · split at h
      · cases h
      · split at h
        · cases h
        · split at h
          · cases h
          · rename_i hu
            have := length_le_of_readCodeUnit hu
            split at h
            · obtain ⟨-, rfl⟩ := Prod.mk.inj (Except.ok.inj h)
              simp only [List.length_cons]
              omega
            · cases h

theorem length_le_of_readUnicode {s r : List UInt8} {c : Char}
    (h : readUnicode s = .ok (c, r)) : r.length ≤ s.length := by
  unfold readUnicode at h
  split at h
  · cases h
  · rename_i hu
    have := length_le_of_readCodeUnit hu
    split at h
    · cases h
    · split at h
      · exact Nat.le_trans (length_le_of_readTrailing h) this
      · cases h
        exact this

theorem length_le_of_readEscape {s r : List UInt8} {c : Char}
    (h : readEscape s = .ok (c, r)) : r.length ≤ s.length := by
  unfold readEscape at h
  split at h
  · cases h
  · split at h
    · cases h
      exact Nat.le_succ _
    · split at h
      · exact Nat.le_succ_of_le (length_le_of_readUnicode h)
      · cases h

/-! ### Strings -/

/-- Reads up to the closing quotation mark, after the bytes `content` in reverse
order. -/
def readContent (content : List UInt8) : List UInt8 → Reading (List UInt8)
  | [] => failed .endInString []
  | b :: r =>
    if b = Ascii.quote then .ok (content.reverse, r)
    else if b = Ascii.backslash then
      match _h : readEscape r with
      | .error f => .error f
      | .ok (c, rest) => readContent ((String.utf8EncodeChar c).reverse ++ content) rest
    else if b < Ascii.space then failed .controlCharacter r
    else readContent (b :: content) r
termination_by s => s.length
decreasing_by
  · exact Nat.lt_succ_of_le (length_le_of_readEscape _h)
  · exact Nat.lt_succ_self _

theorem length_lt_of_readContent {content s out r : List UInt8}
    (h : readContent content s = .ok (out, r)) : r.length < s.length := by
  induction content, s using readContent.induct with
  | case1 content => simp [readContent, failed] at h
  | case2 content r' =>
    rw [readContent, if_pos rfl] at h
    cases h
    exact Nat.lt_succ_self _
  | case3 content r' f hf hq =>
    rw [readContent, if_neg hq, if_pos rfl] at h
    split at h
    · cases h
    · simp_all
  | case4 content r' c rest hc hq ih =>
    rw [readContent, if_neg hq, if_pos rfl] at h
    have := length_le_of_readEscape hc
    split at h
    · cases h
    · rename_i c' rest' h'
      obtain ⟨rfl, rfl⟩ : c = c' ∧ rest = rest' := by simpa [hc] using h'
      have := ih h
      simp only [List.length_cons]
      omega
  | case5 content b r' hq hb hs => simp [readContent, hq, hb, hs, failed] at h
  | case6 content b r' hq hb hs ih =>
    rw [readContent, if_neg hq, if_neg hb, if_neg hs] at h
    exact Nat.lt_succ_of_lt (ih h)

/-- Reads a string after its opening quotation mark. -/
def readString (s : List UInt8) : Reading String :=
  match readContent [] s with
  | .error f => .error f
  | .ok (content, r) =>
    match Utf8.decode content with
    | (text, []) => .ok (String.ofList text, r)
    | (_, left) => .error ⟨.invalidCodePoint, r, left.length⟩

theorem length_lt_of_readString {s r : List UInt8} {text : String}
    (h : readString s = .ok (text, r)) : r.length < s.length := by
  unfold readString at h
  split at h
  · cases h
  · rename_i hc
    split at h
    · cases h
      exact length_lt_of_readContent hc
    · cases h

end Document

end JsonSieve
