import Mathlib.Data.List.TakeWhile
import JsonSieve.Document.Reader
import JsonSieve.Proofs.Text.Utf8

/-!
# The place of a failure

A failure does not say where in the input it is. It says which bytes are unread there and how
far to move back, and a line and a column come of that by subtraction. They are those of a
place only if what is unread is a last part of the input, and if it is moved back over bytes
that have been read (`JsonSieve.Document.Failure.IsWithin`). Every reader sees to both, for
whatever it is given and also where it succeeds (`JsonSieve.Document.Reading.IsWithin`), and
so does a run of steps, by induction (`JsonSieve.Document.State.isWithin_of_run`).

Strings alone are moved back over. It is the bytes between the quotation marks that are
counted, but after escapes have been replaced; they are not more than the bytes that have been
read, since no character takes more bytes than its escapes
(`JsonSieve.Document.length_encode_of_readEscape`).

A step reads the byte that it begins with before it can fail. So the column of an input that
is one line is at least one, and at most its length (`JsonSieve.Document.parse_position`).
-/

namespace JsonSieve

namespace Document

variable {α : Type} {s t : List UInt8}

/-! ### Within some bytes -/

/-- **A failure within some bytes.** -/
structure Failure.IsWithin (f : Failure) (s : List UInt8) : Prop where
  /-- What is unread is a last part of them, -/
  unread_isSuffix : f.unread <:+ s
  /-- and it is moved back over bytes that have been read. -/
  back_le : f.back + f.unread.length ≤ s.length

theorem Failure.IsWithin.mono {f : Failure} (h : f.IsWithin s) (hs : s <:+ t) : f.IsWithin t :=
  ⟨h.unread_isSuffix.trans hs, Nat.le_trans h.back_le hs.length_le⟩

namespace Reading

/-- **A reading within some bytes**: it leaves a last part of them, or it fails within them. -/
def IsWithin (s : List UInt8) : Reading α → Prop
  | .ok (_, r) => r <:+ s
  | .error f => f.IsWithin s

theorem IsWithin.mono {reading : Reading α} (h : reading.IsWithin s) (hs : s <:+ t) :
    reading.IsWithin t := by
  cases reading with
  | error f => exact Failure.IsWithin.mono h hs
  | ok p => exact List.IsSuffix.trans h hs

theorem IsWithin.cons {reading : Reading α} (h : reading.IsWithin s) (b : UInt8) :
    reading.IsWithin (b :: s) :=
  h.mono (List.suffix_cons b s)

theorem IsWithin.isSuffix {reading : Reading α} {x : α} {r : List UInt8}
    (h : reading.IsWithin s) (hr : reading = .ok (x, r)) : r <:+ s := by
  subst hr
  exact h

theorem IsWithin.failure {reading : Reading α} {f : Failure} (h : reading.IsWithin s)
    (hf : reading = .error f) : f.IsWithin s := by
  subst hf
  exact h

@[simp] theorem isWithin_failed {cause : Cause} {u : List UInt8} :
    (failed cause u : Reading α).IsWithin s ↔ u <:+ s := by
  refine ⟨fun h => h.unread_isSuffix, fun h => ⟨h, ?_⟩⟩
  rw [Nat.zero_add]
  exact h.length_le

theorem isWithin_complete {wrap : α → Document} {frames : List Frame} {reading : Reading α}
    (h : reading.IsWithin s) : (reading.complete wrap frames).IsWithin s := by
  cases reading with
  | error f => exact h
  | ok p => exact h

end Reading

open Reading

/-! ### Escapes -/

theorem isWithin_readCodeUnit (s : List UInt8) : (readCodeUnit s).IsWithin s := by
  unfold readCodeUnit
  split
  · rename_i a b c d r
    have hr : r <:+ a :: b :: c :: d :: r := ⟨[a, b, c, d], rfl⟩
    split
    · exact hr
    · exact isWithin_failed.mpr hr
  · simp

theorem isWithin_readTrailing (leading : Nat) (s : List UInt8) :
    (readTrailing leading s).IsWithin s := by
  unfold readTrailing
  split
  · simp
  rename_i b r
  refine IsWithin.cons ?_ b
  split
  · simp
  split
  · simp
  rename_i c r
  refine IsWithin.cons ?_ c
  split
  · simp
  have hunit := isWithin_readCodeUnit r
  split
  · rename_i f hf
    exact hunit.failure hf
  · rename_i unit rest hr
    have hrest : rest <:+ r := hunit.isSuffix hr
    split
    · exact hrest
    · exact isWithin_failed.mpr hrest

theorem isWithin_readUnicode (s : List UInt8) : (readUnicode s).IsWithin s := by
  unfold readUnicode
  have hunit := isWithin_readCodeUnit s
  split
  · rename_i f hf
    exact hunit.failure hf
  · rename_i unit rest hr
    have hrest : rest <:+ s := hunit.isSuffix hr
    split
    · exact isWithin_failed.mpr hrest
    split
    · exact (isWithin_readTrailing unit rest).mono hrest
    · exact hrest

theorem isWithin_readEscape (s : List UInt8) : (readEscape s).IsWithin s := by
  unfold readEscape
  split
  · simp
  rename_i b r
  refine IsWithin.cons ?_ b
  split
  · exact List.suffix_rfl
  split
  · exact isWithin_readUnicode r
  · simp

/-! ### No escape is shorter than its character -/

theorem length_of_readCodeUnit {r : List UInt8} {unit : Nat}
    (h : readCodeUnit s = .ok (unit, r)) : s.length = r.length + 4 := by
  unfold readCodeUnit at h
  split at h
  · split at h
    · cases h
      rfl
    · cases h
  · cases h

theorem length_of_readUnicode {r : List UInt8} {c : Char} (h : readUnicode s = .ok (c, r)) :
    r.length + 4 ≤ s.length := by
  unfold readUnicode at h
  split at h
  · cases h
  · rename_i unit rest hunit
    have hlength := length_of_readCodeUnit hunit
    split at h
    · cases h
    split at h
    · have := length_le_of_readTrailing h
      omega
    · cases h
      omega

theorem length_encode_of_shortEscape? {b : UInt8} {c : Char} (h : shortEscape? b = some c) :
    (String.utf8EncodeChar c).length = 1 := by
  unfold shortEscape? at h
  split_ifs at h <;> cases h <;> rfl

/-- **No character takes more bytes than its escapes**, the backslash included. -/
theorem length_encode_of_readEscape {r : List UInt8} {c : Char} (h : readEscape s = .ok (c, r)) :
    (String.utf8EncodeChar c).length + r.length ≤ s.length + 1 := by
  unfold readEscape at h
  split at h
  · cases h
  · split at h
    · rename_i hshort
      cases h
      rw [length_encode_of_shortEscape? hshort, List.length_cons]
      omega
    · split at h
      · have hrest := length_of_readUnicode h
        have hsize := c.utf8Size_le_four
        rw [String.length_utf8EncodeChar, List.length_cons]
        omega
      · cases h

/-! ### Strings -/

theorem isWithin_readContent (content s : List UInt8) : (readContent content s).IsWithin s := by
  fun_induction readContent content s with
  | case1 => simp
  | case2 content r => exact List.suffix_cons _ r
  | case3 content r f hf => exact ((isWithin_readEscape r).failure hf).mono (List.suffix_cons _ r)
  | case4 content r c rest hrest hquote ih =>
    have hescape : rest <:+ r := (isWithin_readEscape r).isSuffix hrest
    exact (ih.mono hescape).cons _
  | case5 content b r => simp
  | case6 content b r hquote hbackslash hcontrol ih => exact ih.cons b

/-- What comes out of a string is not longer than what has been read, quotation mark apart. -/
theorem length_readContent {content out r : List UInt8} (h : readContent content s = .ok (out, r)) :
    out.length + r.length < content.length + s.length := by
  fun_induction readContent content s with
  | case1 => cases h
  | case2 content r' =>
    cases h
    rw [List.length_reverse, List.length_cons]
    omega
  | case3 => cases h
  | case4 content r' c rest hrest hquote ih =>
    have hescape := length_encode_of_readEscape hrest
    have hlength := ih h
    rw [List.length_append, List.length_reverse] at hlength
    rw [List.length_cons]
    omega
  | case5 => cases h
  | case6 content b r' hquote hbackslash hcontrol ih =>
    have hlength := ih h
    rw [List.length_cons] at hlength ⊢
    omega

theorem isWithin_readString (s : List UInt8) : (readString s).IsWithin s := by
  unfold readString
  have hcontent := isWithin_readContent [] s
  split
  · rename_i f hf
    exact hcontent.failure hf
  · rename_i content r hr
    have hsuffix : r <:+ s := hcontent.isSuffix hr
    split
    · exact hsuffix
    · rename_i left hdecode
      -- what is not UTF-8 is a part of what has been read
      have hleft := Utf8.length_decode_le content
      have hlength := length_readContent hr
      rw [hdecode] at hleft
      rw [List.length_nil] at hlength
      exact ⟨hsuffix, by dsimp only at hleft ⊢; omega⟩

/-! ### Numbers -/

theorem isWithin_finishReal (negative : Bool) (significand : Nat) (exponent : Int)
    (r : List UInt8) : (finishReal negative significand exponent r).IsWithin r := by
  unfold finishReal
  split
  · exact List.suffix_rfl
  · simp

theorem isWithin_finishInteger (negative : Bool) (significand : Nat) (r : List UInt8) :
    (finishInteger negative significand r).IsWithin r := by
  unfold finishInteger
  split
  · exact List.suffix_rfl
  · exact isWithin_finishReal negative significand 0 r

theorem dropDigits_isSuffix (s : List UInt8) : Ascii.dropDigits s <:+ s := List.dropWhile_suffix _

theorem gather_isSuffix (significand taken : Nat) (s : List UInt8) :
    (gather significand taken s).2.2 <:+ s := by
  fun_induction gather significand taken s with
  | case1 => exact List.suffix_rfl
  | case2 => exact List.suffix_rfl
  | case3 significand taken b r d hd hlt ih => exact ih.trans (List.suffix_cons b r)
  | case4 => exact List.suffix_rfl

theorem readExponentDigits_isSuffix (n : Nat) (s : List UInt8) :
    (readExponentDigits n s).2 <:+ s := by
  fun_induction readExponentDigits n s with
  | case1 => exact List.suffix_rfl
  | case2 => exact List.suffix_rfl
  | case3 n b r d hd hlt => exact List.suffix_cons b r
  | case4 n b r d hd hlt ih => exact ih.trans (List.suffix_cons b r)

theorem splitSign_isSuffix (s : List UInt8) : (splitSign s).2 <:+ s := by
  unfold splitSign
  split
  · exact List.suffix_rfl
  split_ifs
  · exact List.suffix_cons _ _
  · exact List.suffix_cons _ _
  · exact List.suffix_rfl

theorem isWithin_readExponent (negative : Bool) (significand : Nat) (exponent : Int)
    (s : List UInt8) : (readExponent negative significand exponent s).IsWithin s := by
  obtain ⟨down, r, hr, hsign⟩ : ∃ down r, r <:+ s ∧ splitSign s = (down, r) :=
    ⟨_, _, splitSign_isSuffix s, rfl⟩
  rw [readExponent, hsign]
  refine IsWithin.mono ?_ hr
  dsimp only
  split
  · simp
  rename_i b t
  split
  · exact isWithin_failed.mpr (List.suffix_cons b t)
  have hdigits := readExponentDigits_isSuffix 0 (b :: t)
  split
  · rename_i n r hr
    rw [hr] at hdigits
    exact (isWithin_finishReal _ _ _ r).mono hdigits
  · rename_i r hr
    rw [hr] at hdigits
    split
    · exact isWithin_failed.mpr hdigits
    · exact (dropDigits_isSuffix r).trans hdigits

theorem isWithin_readAfterFraction (negative : Bool) (significand : Nat) (exponent : Int)
    (s : List UInt8) : (readAfterFraction negative significand exponent s).IsWithin s := by
  unfold readAfterFraction
  split
  · exact isWithin_finishReal _ _ _ _
  · rename_i b r
    split
    · exact (isWithin_readExponent _ _ _ r).cons b
    · exact isWithin_finishReal _ _ _ _

theorem isWithin_readFraction (negative : Bool) (significand exponent : Nat) (s : List UInt8) :
    (readFraction negative significand exponent s).IsWithin s := by
  obtain ⟨m, taken, r, hr, hgather⟩ :
      ∃ m taken r, r <:+ s ∧ gather significand 0 s = (m, taken, r) :=
    ⟨_, _, _, gather_isSuffix significand 0 s, rfl⟩
  rw [readFraction, hgather]
  refine IsWithin.mono ?_ hr
  dsimp only
  split
  · exact (isWithin_readAfterFraction _ _ _ _).mono (dropDigits_isSuffix r)
  · split
    · simp
    · rename_i b t
      exact isWithin_failed.mpr (List.suffix_cons b t)

theorem isWithin_readAfterWhole (negative : Bool) (significand dropped : Nat) (s : List UInt8) :
    (readAfterWhole negative significand dropped s).IsWithin s := by
  unfold readAfterWhole
  split
  · rename_i b r
    split_ifs
    · exact (isWithin_readFraction _ _ _ r).cons b
    · exact (isWithin_readExponent _ _ _ r).cons b
    · exact isWithin_finishInteger _ _ _
    · exact isWithin_finishReal _ _ _ _
  · split_ifs
    · exact isWithin_finishInteger _ _ _
    · exact isWithin_finishReal _ _ _ _

/-- A number fails after its first byte. -/
theorem isWithin_readNumber_cons (negative : Bool) (b : UInt8) (r : List UInt8) :
    (readNumber negative (b :: r)).IsWithin r := by
  unfold readNumber
  dsimp only
  split
  · simp
  · split
    · exact isWithin_readAfterWhole _ _ _ _
    · rename_i c t
      split
      · exact isWithin_failed.mpr (List.suffix_cons c t)
      · exact isWithin_readAfterWhole _ _ _ _
  · rename_i d hd hzero
    have hgather := gather_isSuffix d 0 r
    exact (isWithin_readAfterWhole _ _ _ _).mono ((dropDigits_isSuffix _).trans hgather)

theorem isWithin_readNumber (negative : Bool) (s : List UInt8) :
    (readNumber negative s).IsWithin s := by
  cases s with
  | nil => simp [readNumber]
  | cons b r => exact (isWithin_readNumber_cons negative b r).cons b

/-! ### Steps -/

theorem isWithin_readKeyword (value : α) (keyword s : List UInt8) :
    (readKeyword value keyword s).IsWithin s := by
  fun_induction readKeyword value keyword s with
  | case1 s => exact List.suffix_rfl
  | case2 => simp
  | case3 keyword b r ih => exact ih.cons b
  | case4 k keyword b r hb => simp

theorem isWithin_openContainer (opened : List Frame → State) (frames : List Frame)
    (r : List UInt8) : (openContainer opened frames r).IsWithin r := by
  unfold openContainer
  split
  · exact List.suffix_rfl
  · simp

theorem isWithin_readValue (b : UInt8) (r : List UInt8) (frames : List Frame) :
    (readValue b r frames).IsWithin r := by
  unfold readValue
  split_ifs
  · exact isWithin_complete (isWithin_readString r)
  · exact isWithin_openContainer _ frames r
  · exact isWithin_openContainer _ frames r
  · exact isWithin_complete (isWithin_readNumber true r)
  · exact isWithin_complete (isWithin_readNumber_cons false b r)
  · exact isWithin_complete (isWithin_readKeyword _ _ r)
  · exact isWithin_complete (isWithin_readKeyword _ _ r)
  · exact isWithin_complete (isWithin_readKeyword _ _ r)
  · simp

theorem isWithin_readKey (b : UInt8) (r : List UInt8) (members : Members) (frames : List Frame) :
    (readKey b r members frames).IsWithin r := by
  have hstring := isWithin_readString r
  unfold readKey
  split
  · split
    · rename_i f hf
      exact hstring.failure hf
    · rename_i key rest hr
      exact hstring.isSuffix hr
  · simp

namespace State

/-- **A step fails after the byte that it begins with.** -/
theorem isWithin_step (state : State) (b : UInt8) (r : List UInt8) :
    (state.step b r).IsWithin r := by
  cases state with
  | value frames => exact isWithin_readValue b r frames
  | arrayOpened frames =>
    rw [step]
    split
    · exact List.suffix_rfl
    · exact isWithin_readValue b r _
  | afterElement elements frames =>
    rw [step]
    split_ifs
    · exact List.suffix_rfl
    · exact List.suffix_rfl
    · simp
  | nextElement elements frames =>
    rw [step]
    split
    · simp
    · exact isWithin_readValue b r _
  | objectOpened frames =>
    rw [step]
    split
    · exact List.suffix_rfl
    · exact isWithin_readKey b r _ frames
  | afterKey members key frames =>
    rw [step]
    split
    · exact List.suffix_rfl
    · simp
  | afterMember members frames =>
    rw [step]
    split_ifs
    · exact List.suffix_rfl
    · exact List.suffix_rfl
    · simp
  | nextMember members frames =>
    rw [step]
    split
    · simp
    · exact isWithin_readKey b r members frames
  | done d => simp [step]

/-- At the end of the input nothing is unread. -/
theorem eq_of_finish {state : State} {f : Failure} (h : state.finish = .error f) :
    f.unread = [] ∧ f.back = 0 := by
  cases state <;> cases h <;> exact ⟨rfl, rfl⟩

theorem isWithin_of_finish {state : State} {f : Failure} (h : state.finish = .error f)
    (s : List UInt8) : f.IsWithin s := by
  obtain ⟨hunread, hback⟩ := eq_of_finish h
  constructor <;> simp [hunread, hback]

/-- **A run fails within what it has been given.** -/
theorem isWithin_of_run {state : State} {f : Failure} (h : state.run s = .error f) :
    f.IsWithin s := by
  fun_induction run state s with
  | case1 state s hs => exact isWithin_of_finish h s
  | case2 state s b r hs f' hf =>
    rw [Except.error.inj h] at hf
    have hstep : f.IsWithin r := (isWithin_step state b r).failure hf
    exact hstep.mono ((List.suffix_cons b r).trans (hs ▸ List.dropWhile_suffix _))
  | case3 state s b r hs next rest hr ih =>
    have hstep : rest <:+ r := (isWithin_step state b r).isSuffix hr
    exact (ih h).mono
      (hstep.trans ((List.suffix_cons b r).trans (hs ▸ List.dropWhile_suffix _)))

end State

/-! ### Positions -/

namespace Failure

variable {f : Failure}

/-- Nothing is lost between what is read and what is unread. -/
theorem IsWithin.read_append_unread (h : f.IsWithin s) : f.read s ++ f.unread = s :=
  List.suffix_iff_eq_append.mp h.unread_isSuffix

/-- **The position in a single line** is in the first line, after as many bytes as have been
read, less those that it is moved back over. -/
theorem IsWithin.position_eq (h : f.IsWithin s) (hnl : Ascii.newline ∉ s) :
    f.position s = ⟨1, s.length - f.unread.length - f.back⟩ := by
  have hread := h.read_append_unread
  have hnot : Ascii.newline ∉ f.read s := fun hmem =>
    hnl (hread ▸ List.mem_append_left _ hmem)
  have hline : ∀ b ∈ (f.read s).reverse, (b != Ascii.newline) = true := by
    intro b hb
    rw [bne_iff_ne]
    rintro rfl
    exact hnot (List.mem_reverse.mp hb)
  have hlength : (f.read s).length = s.length - f.unread.length := by
    have := congrArg List.length hread
    rw [List.length_append] at this
    omega
  rw [Failure.position, Position.after, List.count_eq_zero_of_not_mem hnot,
    List.takeWhile_eq_self_iff.mpr hline, List.length_reverse, hlength]

end Failure

/-- An input fails after its first byte, if it has one. -/
theorem lt_of_read {f : Failure} (h : read s = .error f) (hne : s ≠ []) :
    f.back + f.unread.length < s.length := by
  have hblanks : skipBlanks s <:+ s := List.dropWhile_suffix _
  rw [read] at h
  rcases hs : skipBlanks s with _ | ⟨b, r⟩
  · rw [State.run_of_end hs] at h
    obtain ⟨hunread, hback⟩ := State.eq_of_finish h
    rw [hunread, hback]
    exact List.length_pos_iff.mpr hne
  · have hwithin : f.IsWithin r := by
      have hstep := State.isWithin_step (.value []) b r
      cases hr : (State.value []).step b r with
      | error f' =>
        rw [State.run_of_failure hs hr] at h
        cases h
        exact hstep.failure hr
      | ok p =>
        obtain ⟨next, rest⟩ := p
        rw [State.run_of_step hs hr] at h
        have hrest : rest <:+ r := hstep.isSuffix hr
        exact (State.isWithin_of_run h).mono hrest
    have hlength := hwithin.back_le
    have hcons := (hs ▸ hblanks).length_le
    rw [List.length_cons] at hcons
    omega

/-- **An input that is one line fails inside it**: in the first line, and in a column that
has a byte of it. -/
theorem parse_position {e : ReadError} (h : parse s = .error e) (hne : s ≠ [])
    (hnl : Ascii.newline ∉ s) :
    ∃ column, e.position = ⟨1, column⟩ ∧ 1 ≤ column ∧ column ≤ s.length := by
  unfold parse at h
  split at h
  · rename_i f hf
    cases h
    have hposition := (State.isWithin_of_run hf).position_eq hnl
    have hlt := lt_of_read hf hne
    rw [Failure.locate, hposition]
    exact ⟨_, rfl, by omega, by omega⟩
  · cases h

end Document

end JsonSieve
