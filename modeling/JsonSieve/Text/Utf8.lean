/-!
# UTF-8

Bytes to characters and back. Reading goes character by character and stops
where the bytes no longer begin a character, so that it answers two questions at
once: which characters the longest valid prefix holds, and which bytes come
after it (`Utf8.decode`). Overlong forms, surrogates and code points above
`0x10FFFF` begin no character.

Texts are ordered by their bytes (`Utf8.order`).
-/

namespace JsonSieve

namespace Utf8

/-- The bytes of a text. -/
def encode (text : List Char) : List UInt8 := text.flatMap String.utf8EncodeChar

@[simp] theorem encode_nil : encode [] = [] := rfl

@[simp] theorem encode_cons (c : Char) (text : List Char) :
    encode (c :: text) = String.utf8EncodeChar c ++ encode text := rfl

@[simp] theorem encode_append (s t : List Char) : encode (s ++ t) = encode s ++ encode t :=
  List.flatMap_append

/-- The bytes of a string. -/
def bytes (s : String) : List UInt8 := encode s.toList

/-- The bytes of a string are those by which it is kept. -/
theorem bytes_eq_toUTF8 (s : String) : bytes s = s.toUTF8.data.toList := by
  have hencode : s.toUTF8 = s.toList.utf8Encode := String.utf8Encode_toList.symm
  rw [hencode]
  simp [bytes, encode, List.utf8Encode]

/-- The order of strings by their bytes. -/
def order (s t : String) : Ordering := compare (bytes s) (bytes t)

/-- The character with a code point, if there is one and it is at least
`least`, below which a shorter form would be due. -/
def scalar? (least value : Nat) : Option Char :=
  if least ≤ value ∧ value.isValidChar then some (Char.ofNat value) else none

/-- The six bits that a continuation byte carries, if the byte is one. -/
def continuation? (b : UInt8) : Option Nat :=
  if 0x80 ≤ b.toNat ∧ b.toNat < 0xC0 then some (b.toNat - 0x80) else none

/-- The six bits that each of some bytes carries, put together after the bits
`high`, if all of them are continuation bytes. -/
def continuations? (high : Nat) (bs : List UInt8) : Option Nat :=
  bs.foldlM (fun bits b => (continuation? b).map (0x40 * bits + ·)) high

/-- The character written in one byte, and the bytes after it. -/
def single? : List UInt8 → Option (Char × List UInt8)
  | a :: r => if a.toNat < 0x80 then some (Char.ofNat a.toNat, r) else none
  | _ => none

/-- The character written in two bytes, and the bytes after it. -/
def pair? : List UInt8 → Option (Char × List UInt8)
  | a :: b :: r =>
    if 0xC0 ≤ a.toNat ∧ a.toNat < 0xE0 then
      ((continuations? (a.toNat - 0xC0) [b]).bind (scalar? 0x80)).map (·, r)
    else none
  | _ => none

/-- The character written in three bytes, and the bytes after it. -/
def triple? : List UInt8 → Option (Char × List UInt8)
  | a :: b :: c :: r =>
    if 0xE0 ≤ a.toNat ∧ a.toNat < 0xF0 then
      ((continuations? (a.toNat - 0xE0) [b, c]).bind (scalar? 0x800)).map (·, r)
    else none
  | _ => none

/-- The character written in four bytes, and the bytes after it. -/
def quadruple? : List UInt8 → Option (Char × List UInt8)
  | a :: b :: c :: d :: r =>
    if 0xF0 ≤ a.toNat ∧ a.toNat < 0xF8 then
      ((continuations? (a.toNat - 0xF0) [b, c, d]).bind (scalar? 0x10000)).map (·, r)
    else none
  | _ => none

/-- The first character of some bytes, and the bytes after it. -/
def next? (s : List UInt8) : Option (Char × List UInt8) :=
  (single? s).or ((pair? s).or ((triple? s).or (quadruple? s)))

theorem length_of_single? {s r : List UInt8} {ch : Char} (h : single? s = some (ch, r)) :
    s.length = r.length + 1 := by
  unfold single? at h
  split at h
  · split at h
    · cases h
      rfl
    · cases h
  · cases h

theorem length_of_pair? {s r : List UInt8} {ch : Char} (h : pair? s = some (ch, r)) :
    s.length = r.length + 2 := by
  unfold pair? at h
  split at h
  · split at h
    · obtain ⟨_, -, he⟩ := Option.map_eq_some_iff.1 h
      cases he
      rfl
    · cases h
  · cases h

theorem length_of_triple? {s r : List UInt8} {ch : Char} (h : triple? s = some (ch, r)) :
    s.length = r.length + 3 := by
  unfold triple? at h
  split at h
  · split at h
    · obtain ⟨_, -, he⟩ := Option.map_eq_some_iff.1 h
      cases he
      rfl
    · cases h
  · cases h

theorem length_of_quadruple? {s r : List UInt8} {ch : Char} (h : quadruple? s = some (ch, r)) :
    s.length = r.length + 4 := by
  unfold quadruple? at h
  split at h
  · split at h
    · obtain ⟨_, -, he⟩ := Option.map_eq_some_iff.1 h
      cases he
      rfl
    · cases h
  · cases h

theorem length_lt_of_next? {s r : List UInt8} {ch : Char} (h : next? s = some (ch, r)) :
    r.length < s.length := by
  rcases Option.or_eq_some_iff.1 h with h | ⟨-, h⟩
  · exact Nat.lt_of_sub_pos (by rw [length_of_single? h]; omega)
  rcases Option.or_eq_some_iff.1 h with h | ⟨-, h⟩
  · exact Nat.lt_of_sub_pos (by rw [length_of_pair? h]; omega)
  rcases Option.or_eq_some_iff.1 h with h | ⟨-, h⟩
  · exact Nat.lt_of_sub_pos (by rw [length_of_triple? h]; omega)
  · exact Nat.lt_of_sub_pos (by rw [length_of_quadruple? h]; omega)

/-- Decoding, after the characters `read` in reverse order. -/
def decodeOnto (read : List Char) (s : List UInt8) : List Char × List UInt8 :=
  match _h : next? s with
  | none => (read.reverse, s)
  | some (ch, r) => decodeOnto (ch :: read) r
termination_by s.length
decreasing_by exact length_lt_of_next? _h

/-- The characters of the longest valid prefix, and the bytes after it. -/
def decode (s : List UInt8) : List Char × List UInt8 := decodeOnto [] s

theorem decodeOnto_eq (read : List Char) (s : List UInt8) :
    decodeOnto read s = (read.reverse ++ (decode s).1, (decode s).2) := by
  suffices h : ∀ n read s, s.length = n → ∀ more : List Char,
      decodeOnto (read ++ more) s = (more.reverse ++ (decodeOnto read s).1, (decodeOnto read s).2)
    from h _ [] s rfl read
  intro n
  induction n using Nat.strongRecOn with
  | ind n ih =>
    intro read s hs more
    rw [decodeOnto, decodeOnto]
    split
    · simp
    · rename_i ch r hr
      exact ih r.length (hs ▸ length_lt_of_next? hr) (ch :: read) r rfl more

/-- Nothing is read where no character begins. -/
theorem decode_of_next?_eq_none {s : List UInt8} (h : next? s = none) : decode s = ([], s) := by
  rw [decode, decodeOnto]
  split
  · rfl
  · simp_all

/-- Where a character begins, it is read first. -/
theorem decode_of_next?_eq_some {s r : List UInt8} {ch : Char} (h : next? s = some (ch, r)) :
    decode s = (ch :: (decode r).1, (decode r).2) := by
  rw [decode, decodeOnto]
  split
  · simp_all
  · rename_i ch' r' h'
    obtain ⟨rfl, rfl⟩ : ch = ch' ∧ r = r' := by simpa [h] using h'
    exact decodeOnto_eq [ch] r

end Utf8

end JsonSieve
