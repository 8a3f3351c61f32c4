import Mathlib.Data.List.Basic
import JsonSieve.Text.Ascii
import JsonSieve.Text.Utf8

/-!
# UTF-8 there and back

Every text is read back from its UTF-8 form (`JsonSieve.Utf8.decode_encode`). Decoding
looks for the first character only, so that this is a fact about one character and
whatever bytes come after it (`JsonSieve.Utf8.next?_encodeChar`). There is one lemma for
each length of a form; the first byte says which of them it is.

The bytes of a form tell an ASCII character from all others: it has one byte, which is
its code (`JsonSieve.Utf8.encodeChar_of_ascii`), and all bytes of another character are
beyond ASCII (`JsonSieve.Utf8.le_of_mem_encodeChar`).
-/

namespace JsonSieve

namespace Utf8

variable {c : Char}

/-! ### The bytes of a character -/

theorem toNat_ofNat_of_lt {n : Nat} (h : n < 0x100) : (UInt8.ofNat n).toNat = n := by
  rw [UInt8.toNat_ofNat']
  exact Nat.mod_eq_of_lt h

/-- An ASCII character is written in one byte, -/
theorem encodeChar_of_ascii (h : c.toNat < 0x80) : String.utf8EncodeChar c = [Ascii.byte c] :=
  if_pos (Nat.le_of_lt_succ h)

/-- the next characters in two, -/
theorem encodeChar_of_pair (h : 0x80 ≤ c.toNat) (h' : c.toNat < 0x800) :
    String.utf8EncodeChar c =
      [UInt8.ofNat (c.toNat / 0x40 + 0xC0), UInt8.ofNat (c.toNat % 0x40 + 0x80)] := by
  have h1 : ¬c.toNat ≤ 0x7F := by omega
  have hbits : c.toNat / 0x40 % 0x20 = c.toNat / 0x40 := by omega
  rw [← hbits]
  exact (if_neg h1).trans (if_pos (Nat.le_of_lt_succ h'))

/-- those after them in three, -/
theorem encodeChar_of_triple (h : 0x800 ≤ c.toNat) (h' : c.toNat < 0x10000) :
    String.utf8EncodeChar c =
      [UInt8.ofNat (c.toNat / 0x1000 + 0xE0), UInt8.ofNat (c.toNat / 0x40 % 0x40 + 0x80),
        UInt8.ofNat (c.toNat % 0x40 + 0x80)] := by
  have h1 : ¬c.toNat ≤ 0x7F := by omega
  have h2 : ¬c.toNat ≤ 0x7FF := by omega
  have hbits : c.toNat / 0x1000 % 0x10 = c.toNat / 0x1000 := by omega
  rw [← hbits]
  exact (if_neg h1).trans ((if_neg h2).trans (if_pos (Nat.le_of_lt_succ h')))

theorem toNat_lt (c : Char) : c.toNat < 0x110000 := by
  rcases c.valid with h | ⟨-, h⟩
  · exact Nat.lt_trans h (by decide)
  · exact h

/-- and all others in four. -/
theorem encodeChar_of_quadruple (h : 0x10000 ≤ c.toNat) :
    String.utf8EncodeChar c =
      [UInt8.ofNat (c.toNat / 0x40000 + 0xF0), UInt8.ofNat (c.toNat / 0x1000 % 0x40 + 0x80),
        UInt8.ofNat (c.toNat / 0x40 % 0x40 + 0x80), UInt8.ofNat (c.toNat % 0x40 + 0x80)] := by
  have hlt := toNat_lt c
  have h1 : ¬c.toNat ≤ 0x7F := by omega
  have h2 : ¬c.toNat ≤ 0x7FF := by omega
  have h3 : ¬c.toNat ≤ 0xFFFF := by omega
  have hbits : c.toNat / 0x40000 % 8 = c.toNat / 0x40000 := by omega
  rw [← hbits]
  exact (if_neg h1).trans ((if_neg h2).trans (if_neg h3))

/-! ### Reading a character -/

theorem scalar?_toNat {least : Nat} (h : least ≤ c.toNat) : scalar? least c.toNat = some c := by
  have hvalid : c.toNat.isValidChar := c.valid
  rw [scalar?, if_pos ⟨h, hvalid⟩, Char.ofNat_toNat]

theorem continuation?_ofNat {n : Nat} (h : n < 0x40) :
    continuation? (UInt8.ofNat (n + 0x80)) = some n := by
  rw [continuation?, toNat_ofNat_of_lt (by omega), if_pos (by omega), Nat.add_sub_cancel]

theorem continuations?_cons {n : Nat} (h : n < 0x40) (high : Nat) (bs : List UInt8) :
    continuations? high (UInt8.ofNat (n + 0x80) :: bs) = continuations? (0x40 * high + n) bs := by
  rw [continuations?, List.foldlM_cons, continuation?_ofNat h]
  rfl

theorem single?_of_le {n : Nat} (h : 0x80 ≤ n) (h' : n < 0x100) (r : List UInt8) :
    single? (UInt8.ofNat n :: r) = none := by
  rw [single?, toNat_ofNat_of_lt h', if_neg (by omega)]

theorem pair?_of_le {n : Nat} (h : 0xE0 ≤ n) (h' : n < 0x100) (b : UInt8) (r : List UInt8) :
    pair? (UInt8.ofNat n :: b :: r) = none := by
  rw [pair?, toNat_ofNat_of_lt h', if_neg (by omega)]

theorem triple?_of_le {n : Nat} (h : 0xF0 ≤ n) (h' : n < 0x100) (b b' : UInt8) (r : List UInt8) :
    triple? (UInt8.ofNat n :: b :: b' :: r) = none := by
  rw [triple?, toNat_ofNat_of_lt h', if_neg (by omega)]

theorem single?_encodeChar (h : c.toNat < 0x80) (r : List UInt8) :
    single? (String.utf8EncodeChar c ++ r) = some (c, r) := by
  have hbyte : (Ascii.byte c).toNat = c.toNat := toNat_ofNat_of_lt (by omega)
  rw [encodeChar_of_ascii h, List.singleton_append, single?, hbyte, if_pos h, Char.ofNat_toNat]

theorem pair?_encodeChar (h : 0x80 ≤ c.toNat) (h' : c.toNat < 0x800) (r : List UInt8) :
    pair? (String.utf8EncodeChar c ++ r) = some (c, r) := by
  have hbits : 0x40 * (c.toNat / 0x40) + c.toNat % 0x40 = c.toNat := Nat.div_add_mod _ _
  rw [encodeChar_of_pair h h']
  simp only [List.cons_append, List.nil_append, pair?]
  rw [toNat_ofNat_of_lt (by omega), if_pos (by omega), Nat.add_sub_cancel,
    continuations?_cons (Nat.mod_lt _ (by decide)), hbits]
  exact congrArg (Option.map (·, r)) (scalar?_toNat h)

theorem triple?_encodeChar (h : 0x800 ≤ c.toNat) (h' : c.toNat < 0x10000) (r : List UInt8) :
    triple? (String.utf8EncodeChar c ++ r) = some (c, r) := by
  have hbits : 0x40 * (0x40 * (c.toNat / 0x1000) + c.toNat / 0x40 % 0x40) + c.toNat % 0x40 =
      c.toNat := by omega
  rw [encodeChar_of_triple h h']
  simp only [List.cons_append, List.nil_append, triple?]
  rw [toNat_ofNat_of_lt (by omega), if_pos (by omega), Nat.add_sub_cancel,
    continuations?_cons (Nat.mod_lt _ (by decide)), continuations?_cons (Nat.mod_lt _ (by decide)),
    hbits]
  exact congrArg (Option.map (·, r)) (scalar?_toNat h)

theorem quadruple?_encodeChar (h : 0x10000 ≤ c.toNat) (r : List UInt8) :
    quadruple? (String.utf8EncodeChar c ++ r) = some (c, r) := by
  have hlt := toNat_lt c
  have hbits : 0x40 * (0x40 * (0x40 * (c.toNat / 0x40000) + c.toNat / 0x1000 % 0x40) +
      c.toNat / 0x40 % 0x40) + c.toNat % 0x40 = c.toNat := by omega
  rw [encodeChar_of_quadruple h]
  simp only [List.cons_append, List.nil_append, quadruple?]
  rw [toNat_ofNat_of_lt (by omega), if_pos (by omega), Nat.add_sub_cancel,
    continuations?_cons (Nat.mod_lt _ (by decide)), continuations?_cons (Nat.mod_lt _ (by decide)),
    continuations?_cons (Nat.mod_lt _ (by decide)), hbits]
  exact congrArg (Option.map (·, r)) (scalar?_toNat h)

/-- **The form of a character is read as this character**, whatever comes after it. -/
theorem next?_encodeChar (c : Char) (r : List UInt8) :
    next? (String.utf8EncodeChar c ++ r) = some (c, r) := by
  have hlt := toNat_lt c
  rw [next?]
  rcases Nat.lt_or_ge c.toNat 0x80 with h1 | h1
  · rw [single?_encodeChar h1, Option.some_or]
  rcases Nat.lt_or_ge c.toNat 0x800 with h2 | h2
  · rw [pair?_encodeChar h1 h2, Option.some_or, encodeChar_of_pair h1 h2, List.cons_append,
      single?_of_le (by omega) (by omega), Option.none_or]
  rcases Nat.lt_or_ge c.toNat 0x10000 with h3 | h3
  · rw [triple?_encodeChar h2 h3, Option.some_or, encodeChar_of_triple h2 h3, List.cons_append,
      List.cons_append, single?_of_le (by omega) (by omega), Option.none_or,
      pair?_of_le (by omega) (by omega), Option.none_or]
  · rw [quadruple?_encodeChar h3, encodeChar_of_quadruple h3, List.cons_append, List.cons_append,
      List.cons_append, single?_of_le (by omega) (by omega), Option.none_or,
      pair?_of_le (by omega) (by omega), Option.none_or, triple?_of_le (by omega) (by omega),
      Option.none_or]

/-- **A text is read back from its UTF-8 form.** -/
theorem decode_encode (text : List Char) : decode (encode text) = (text, []) := by
  induction text with
  | nil => exact decode_of_next?_eq_none rfl
  | cons c text ih => rw [encode_cons, decode_of_next?_eq_some (next?_encodeChar c _), ih]

/-- What is not decoded is not longer than all. -/
theorem length_decode_le (s : List UInt8) : (decode s).2.length ≤ s.length := by
  cases h : next? s with
  | none => exact Nat.le_of_eq (congrArg (·.2.length) (decode_of_next?_eq_none h))
  | some p =>
    obtain ⟨ch, r⟩ := p
    have hlt := length_lt_of_next? h
    rw [decode_of_next?_eq_some h]
    exact Nat.le_trans (length_decode_le r) (Nat.le_of_lt hlt)
termination_by s.length

/-! ### Bytes that are not ASCII -/

/-- No byte of a character beyond ASCII is an ASCII character. -/
theorem le_of_mem_encodeChar (h : 0x80 ≤ c.toNat) {b : UInt8} (hb : b ∈ String.utf8EncodeChar c) :
    0x80 ≤ b.toNat := by
  have hlt := toNat_lt c
  rcases Nat.lt_or_ge c.toNat 0x800 with h2 | h2
  · rw [encodeChar_of_pair h h2] at hb
    simp only [List.mem_cons, List.not_mem_nil, or_false] at hb
    rcases hb with rfl | rfl <;> rw [toNat_ofNat_of_lt (by omega)] <;> omega
  rcases Nat.lt_or_ge c.toNat 0x10000 with h3 | h3
  · rw [encodeChar_of_triple h2 h3] at hb
    simp only [List.mem_cons, List.not_mem_nil, or_false] at hb
    rcases hb with rfl | rfl | rfl <;> rw [toNat_ofNat_of_lt (by omega)] <;> omega
  · rw [encodeChar_of_quadruple h3] at hb
    simp only [List.mem_cons, List.not_mem_nil, or_false] at hb
    rcases hb with rfl | rfl | rfl | rfl <;> rw [toNat_ofNat_of_lt (by omega)] <;> omega

/-! ### The order of texts -/

instance : Std.TransCmp order where
  eq_swap := by
    intro s t
    exact @Std.OrientedCmp.eq_swap (List UInt8) compare _ (bytes s) (bytes t)
  isLE_trans := by
    intro s t u
    exact @Std.TransCmp.isLE_trans (List UInt8) compare _ (bytes s) (bytes t) (bytes u)

theorem bytes_injective {s t : String} (h : bytes s = bytes t) : s = t := by
  have hdecode : decode (bytes s) = decode (bytes t) := congrArg decode h
  rw [bytes, bytes, decode_encode, decode_encode] at hdecode
  exact String.toList_inj.mp (congrArg Prod.fst hdecode)

/-- Strings that come at the same place are the same. -/
theorem eq_of_order_eq {s t : String} (h : order s t = .eq) : s = t :=
  bytes_injective (Std.LawfulEqCmp.eq_of_compare h)

end Utf8

end JsonSieve
