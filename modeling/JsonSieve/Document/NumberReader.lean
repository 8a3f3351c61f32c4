import JsonSieve.Binary64.Scaling
import JsonSieve.Document.Failure
import JsonSieve.Document.Number

/-!
# Reading the numbers of a document

The digits of a number are gathered into a significand of 64 bits
(`gather`). From the first digit on that does not fit, digits before the point
only raise the decimal exponent and digits after it are dropped. An integer whose
digits all fit stays an integer; any other number is the significand scaled by a
power of ten, which rounds more than once (`Binary64.scaled?`). So such a number
is not always the double nearest to what was written.

An exponent of more than 31 bits is not computed: it makes a number zero or out
of range (`Exponent`).
-/

namespace JsonSieve

namespace Document

/-! ### Finishing a number -/

/-- A number of either sign that is not an integer, or is too large for one. -/
def finishReal (negative : Bool) (significand : Nat) (exponent : Int) (r : List UInt8) :
    Reading Number :=
  match Binary64.scaled? significand exponent with
  | some x => .ok (.real (if negative then x.neg else x), r)
  | none => failed .numberOutOfRange r

/-- The integer that a sign and digits write. Minus zero is none. -/
def integer? (negative : Bool) (significand : Nat) : Option Number :=
  if negative then (if significand = 0 then none else Number.ofInt? (-significand))
  else Number.ofInt? significand

/-- A number without point and exponent whose digits all fit. What is not an
integer in range is a double. -/
def finishInteger (negative : Bool) (significand : Nat) (r : List UInt8) : Reading Number :=
  match integer? negative significand with
  | some n => .ok (n, r)
  | none => finishReal negative significand 0 r

/-! ### Digits -/

/-- A significand is below `2 ^ 64`. -/
def significandLimit : Nat := 18446744073709551616

/-- Takes digits into the significand as long as it stays below its limit. Answers
with the significand, the number of digits taken in all, and the bytes after
them. -/
def gather (significand taken : Nat) : List UInt8 → Nat × Nat × List UInt8
  | [] => (significand, taken, [])
  | b :: r =>
    match Ascii.digit? b with
    | none => (significand, taken, b :: r)
    | some d =>
      if 10 * significand + d < significandLimit then gather (10 * significand + d) (taken + 1) r
      else (significand, taken, b :: r)

theorem length_gather_le (significand taken : Nat) (s : List UInt8) :
    (gather significand taken s).2.2.length ≤ s.length := by
  fun_induction gather significand taken s with
  | case1 => exact Nat.le_refl _
  | case2 => exact Nat.le_refl _
  | case3 significand taken b r d hd hlt ih => exact Nat.le_succ_of_le ih
  | case4 => exact Nat.le_refl _

/-! ### Exponents -/

/-- The digits of an exponent: its value, or that it has more than 31 bits. -/
inductive Exponent where
  /-- An exponent of at most 31 bits. -/
  | value (n : Nat)
  /-- An exponent that is not computed. -/
  | huge

/-- The largest exponent that is computed. -/
def maxExponent : Nat := 2147483647

/-- Reads the digits of an exponent, up to the one that makes it huge. -/
def readExponentDigits (n : Nat) : List UInt8 → Exponent × List UInt8
  | [] => (.value n, [])
  | b :: r =>
    match Ascii.digit? b with
    | none => (.value n, b :: r)
    | some d =>
      if maxExponent < 10 * n + d then (.huge, r) else readExponentDigits (10 * n + d) r

theorem length_readExponentDigits_le (n : Nat) (s : List UInt8) :
    (readExponentDigits n s).2.length ≤ s.length := by
  fun_induction readExponentDigits n s with
  | case1 => exact Nat.le_refl _
  | case2 => exact Nat.le_refl _
  | case3 n b r d hd hlt => exact Nat.le_succ _
  | case4 n b r d hd hlt ih => exact Nat.le_succ_of_le ih

/-- A sign that may be left out; whether it is a minus, and the bytes after
it. -/
def splitSign : List UInt8 → Bool × List UInt8
  | [] => (false, [])
  | b :: r =>
    if b = Ascii.minus then (true, r) else if b = Ascii.plus then (false, r) else (false, b :: r)

theorem length_splitSign_le (s : List UInt8) : (splitSign s).2.length ≤ s.length := by
  unfold splitSign
  split
  · exact Nat.le_refl _
  · split
    · exact Nat.le_succ _
    · split
      · exact Nat.le_succ _
      · exact Nat.le_refl _

/-- Reads an exponent after its letter. -/
def readExponent (negative : Bool) (significand : Nat) (exponent : Int) (s : List UInt8) :
    Reading Number :=
  let (down, r) := splitSign s
  match r with
  | [] => failed .endInValue []
  | b :: t =>
    if (Ascii.digit? b).isNone then failed .invalidNumber t
    else match readExponentDigits 0 (b :: t) with
      | (.value n, r) =>
        finishReal negative significand (if down then exponent - n else exponent + n) r
      | (.huge, r) =>
        if significand ≠ 0 ∧ down = false then failed .numberOutOfRange r
        else .ok (.real (.zero negative), Ascii.dropDigits r)

/-- The letters that begin an exponent. -/
def isExponentLetter (b : UInt8) : Bool := b == Ascii.byte 'e' || b == Ascii.byte 'E'

/-- Reads what may stand after the digits: an exponent. -/
def readAfterFraction (negative : Bool) (significand : Nat) (exponent : Int) :
    List UInt8 → Reading Number
  | [] => finishReal negative significand exponent []
  | b :: r =>
    if isExponentLetter b then readExponent negative significand exponent r
    else finishReal negative significand exponent (b :: r)

/-- Reads a fraction after its point. The digits after the first one that does
not fit are dropped. -/
def readFraction (negative : Bool) (significand : Nat) (exponent : Nat) (s : List UInt8) :
    Reading Number :=
  let (significand, taken, r) := gather significand 0 s
  if Ascii.startsWithDigit s then
    readAfterFraction negative significand (exponent - taken) (Ascii.dropDigits r)
  else match r with
    | [] => failed .endInValue []
    | _ :: t => failed .invalidNumber t

/-- Reads what may stand after the digits before the point, `dropped` of which
did not fit. -/
def readAfterWhole (negative : Bool) (significand dropped : Nat) (s : List UInt8) :
    Reading Number :=
  match s with
  | b :: r =>
    if b = Ascii.point then readFraction negative significand dropped r
    else if isExponentLetter b then readExponent negative significand dropped r
    else if dropped = 0 then finishInteger negative significand s
    else finishReal negative significand dropped s
  | [] =>
    if dropped = 0 then finishInteger negative significand s
    else finishReal negative significand dropped s

/-- Reads a number after its sign. -/
def readNumber (negative : Bool) : List UInt8 → Reading Number
  | [] => failed .endInValue []
  | b :: r =>
    match Ascii.digit? b with
    | none => failed .invalidNumber r
    | some 0 =>
      match r with
      | [] => readAfterWhole negative 0 0 []
      | c :: t =>
        if (Ascii.digit? c).isSome then failed .invalidNumber t
        else readAfterWhole negative 0 0 (c :: t)
    | some d =>
      let (significand, _, r) := gather d 0 r
      readAfterWhole negative significand (Ascii.countDigits r) (Ascii.dropDigits r)

/-! ### What a number leaves unread -/

theorem length_le_of_finishReal {negative : Bool} {significand : Nat} {exponent : Int}
    {s r : List UInt8} {n : Number}
    (h : finishReal negative significand exponent s = .ok (n, r)) : r.length ≤ s.length := by
  unfold finishReal at h
  split at h
  · obtain ⟨-, rfl⟩ := Prod.mk.inj (Except.ok.inj h)
    exact Nat.le_refl _
  · cases h

theorem length_le_of_finishInteger {negative : Bool} {significand : Nat}
    {s r : List UInt8} {n : Number}
    (h : finishInteger negative significand s = .ok (n, r)) : r.length ≤ s.length := by
  unfold finishInteger at h
  split at h
  · cases h
    exact Nat.le_refl _
  · exact length_le_of_finishReal h

theorem length_le_of_readExponent {negative : Bool} {significand : Nat} {exponent : Int}
    {s r : List UInt8} {n : Number}
    (h : readExponent negative significand exponent s = .ok (n, r)) : r.length ≤ s.length := by
  unfold readExponent at h
  have hs := length_splitSign_le s
  rcases hd : splitSign s with ⟨down, t⟩
  rw [hd] at h hs
  dsimp only at h hs
  split at h
  · cases h
  · rename_i b t
    split at h
    · cases h
    · have he := length_readExponentDigits_le 0 (b :: t)
      split at h
      · rename_i m r' hr
        rw [hr] at he
        exact Nat.le_trans (length_le_of_finishReal h) (Nat.le_trans he hs)
      · rename_i r' hr
        rw [hr] at he
        split at h
        · cases h
        · obtain ⟨-, rfl⟩ := Prod.mk.inj (Except.ok.inj h)
          exact Nat.le_trans (Ascii.length_dropDigits_le _) (Nat.le_trans he hs)

theorem length_le_of_readAfterFraction {negative : Bool} {significand : Nat} {exponent : Int}
    {s r : List UInt8} {n : Number}
    (h : readAfterFraction negative significand exponent s = .ok (n, r)) :
    r.length ≤ s.length := by
  unfold readAfterFraction at h
  split at h
  · exact length_le_of_finishReal h
  · split at h
    · exact Nat.le_succ_of_le (length_le_of_readExponent h)
    · exact length_le_of_finishReal h

theorem length_le_of_readFraction {negative : Bool} {significand exponent : Nat}
    {s r : List UInt8} {n : Number}
    (h : readFraction negative significand exponent s = .ok (n, r)) : r.length ≤ s.length := by
  unfold readFraction at h
  dsimp only at h
  have hg := length_gather_le significand 0 s
  split at h
  · exact Nat.le_trans (length_le_of_readAfterFraction h)
      (Nat.le_trans (Ascii.length_dropDigits_le _) hg)
  · split at h <;> cases h

theorem length_le_of_readAfterWhole {negative : Bool} {significand dropped : Nat}
    {s r : List UInt8} {n : Number}
    (h : readAfterWhole negative significand dropped s = .ok (n, r)) : r.length ≤ s.length := by
  unfold readAfterWhole at h
  split at h
  · split at h
    · exact Nat.le_succ_of_le (length_le_of_readFraction h)
    · split at h
      · exact Nat.le_succ_of_le (length_le_of_readExponent h)
      · split at h
        · exact length_le_of_finishInteger h
        · exact length_le_of_finishReal h
  · split at h
    · exact length_le_of_finishInteger h
    · exact length_le_of_finishReal h

theorem length_lt_of_readNumber {negative : Bool} {s r : List UInt8} {n : Number}
    (h : readNumber negative s = .ok (n, r)) : r.length < s.length := by
  unfold readNumber at h
  split at h
  · cases h
  · split at h
    · cases h
    · split at h
      · exact Nat.lt_succ_of_le (length_le_of_readAfterWhole h)
      · split at h
        · cases h
        · exact Nat.lt_succ_of_le (length_le_of_readAfterWhole h)
    · dsimp only at h
      refine Nat.lt_succ_of_le (Nat.le_trans (length_le_of_readAfterWhole h) ?_)
      exact Nat.le_trans (Ascii.length_dropDigits_le _) (length_gather_le _ _ _)

end Document

end JsonSieve
