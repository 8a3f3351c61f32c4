import Mathlib.Data.List.Basic
import JsonSieve.Document.Reader
import JsonSieve.Proofs.Text.Utf8

/-!
# The shape of documents that are read

Not every document can come out of the reader: the members of an object are in the order
of their keys, none of which occurs twice (`JsonSieve.Document.Members.Sorted`), and
arrays and objects contain one another at most `JsonSieve.Document.maxDepth` deep. Both
are said at once by `JsonSieve.Document.Fits`, which counts how deep a document may still
go.

A step of the reader sees one byte or one scalar only, so that the shape has to be an
invariant of its state. What has been read inside the frames that are open fits under
them, the outermost one leaving room for all levels but one
(`JsonSieve.Document.Encloses`). Every step keeps this
(`JsonSieve.Document.State.fits_of_step`), and so every document that is read fits
(`JsonSieve.Document.fits_of_read`).
-/

namespace JsonSieve

namespace Document

/-! ### Members in order -/

namespace Members

/-- **The keys of members are in order**, and no two are the same. -/
def Sorted (members : Members) : Prop := members.Pairwise fun a b => Utf8.order a.1 b.1 = .lt

variable {members : Members} {key : String} {value : Document}

theorem mem_insert {m : String × Document} (h : m ∈ members.insert key value) :
    m = (key, value) ∨ m ∈ members := by
  induction members with
  | nil => exact Or.inl (List.mem_singleton.mp h)
  | cons head rest ih =>
    obtain ⟨k, v⟩ := head
    rw [insert] at h
    split at h
    · exact List.mem_cons.mp h
    · exact (List.mem_cons.mp h).imp_right (List.mem_cons_of_mem _)
    · rcases List.mem_cons.mp h with rfl | h
      · exact Or.inr List.mem_cons_self
      · exact (ih h).imp_right (List.mem_cons_of_mem _)

/-- Inserting keeps members in order. -/
theorem Sorted.insert (h : Sorted members) (key : String) (value : Document) :
    Sorted (members.insert key value) := by
  induction members with
  | nil => exact List.pairwise_singleton _ _
  | cons head rest ih =>
    obtain ⟨k, v⟩ := head
    obtain ⟨hk, hrest⟩ := List.pairwise_cons.mp h
    rw [Members.insert]
    split
    · rename_i hlt
      refine List.pairwise_cons.mpr ⟨fun m hm => ?_, h⟩
      rcases List.mem_cons.mp hm with rfl | hm
      · exact hlt
      · exact Std.TransCmp.lt_trans hlt (hk m hm)
    · rename_i heq
      exact List.pairwise_cons.mpr ⟨fun m hm => Std.TransCmp.lt_of_eq_of_lt heq (hk m hm), hrest⟩
    · rename_i hgt
      refine List.pairwise_cons.mpr ⟨fun m hm => ?_, ih hrest⟩
      rcases mem_insert hm with rfl | hm
      · exact Std.OrientedCmp.gt_iff_lt.mp hgt
      · exact hk m hm

end Members

/-! ### Documents that fit -/

/-- **A document fits `n` levels**: its arrays and objects contain one another at most `n`
deep, and all members are in order. -/
inductive Fits : Nat → Document → Prop
  /-- The value `null` takes no level. -/
  | null (n : Nat) : Fits n .null
  /-- A truth value takes none. -/
  | bool (n : Nat) (value : Bool) : Fits n (.bool value)
  /-- A number takes none. -/
  | number (n : Nat) (value : Document.Number) : Fits n (.number value)
  /-- A string takes none. -/
  | string (n : Nat) (value : String) : Fits n (.string value)
  /-- An array takes one, and so does an empty one. -/
  | array {n : Nat} {elements : List Document} (h : ∀ d ∈ elements, Fits n d) :
    Fits (n + 1) (.array elements)
  /-- So does an object. -/
  | object {n : Nat} {members : Members} (hsorted : members.Sorted)
    (h : ∀ m ∈ members, Fits n m.2) : Fits (n + 1) (.object members)

/-! ### The invariant -/

/-- What has been read inside a frame fits `n` levels. -/
def Frame.Fits (n : Nat) : Frame → Prop
  | .array elements => ∀ d ∈ elements, d.Fits n
  | .object members _ => members.Sorted ∧ ∀ m ∈ members, m.2.Fits n

/-- **Frames around a place where `n` levels are left**, and what has been read inside
them fits. -/
inductive Encloses : Nat → List Frame → Prop
  /-- Outside of all frames all levels are left. -/
  | nil : Encloses maxDepth []
  /-- A frame takes one level. -/
  | cons {n : Nat} {frame : Frame} {frames : List Frame} (hframe : frame.Fits n)
    (h : Encloses (n + 1) frames) : Encloses n (frame :: frames)

namespace Encloses

variable {n : Nat} {frames : List Frame}

theorem length_add (h : Encloses n frames) : frames.length + n = maxDepth := by
  induction h with
  | nil => exact Nat.zero_add _
  | cons _ _ ih =>
    rw [List.length_cons]
    omega

/-- A frame may be opened where a level is left. -/
theorem exists_succ (h : Encloses n frames) (hlt : frames.length < maxDepth) :
    ∃ m, Encloses (m + 1) frames := by
  have hlength := h.length_add
  cases n with
  | zero => omega
  | succ m => exact ⟨m, h⟩

theorem cons_array (h : Encloses (n + 1) frames) : Encloses n (.array [] :: frames) :=
  .cons (by simp [Frame.Fits]) h

theorem cons_object (h : Encloses (n + 1) frames) (key : String) :
    Encloses n (.object [] key :: frames) :=
  .cons ⟨List.Pairwise.nil, by simp⟩ h

end Encloses

namespace State

/-- The frames around the place that a state has come to. -/
def frames : State → List Frame
  | value frames => frames
  | arrayOpened frames => .array [] :: frames
  | afterElement elements frames => .array elements :: frames
  | nextElement elements frames => .array elements :: frames
  | objectOpened frames => .object [] "" :: frames
  | afterKey members key frames => .object members key :: frames
  | afterMember members frames => .object members "" :: frames
  | nextMember members frames => .object members "" :: frames
  | done _ => []

/-- The document that has been read, if reading is over. -/
def document? : State → Option Document
  | done d => some d
  | _ => none

/-- **All that has been read fits.** -/
structure Fits (state : State) : Prop where
  /-- Inside the frames that are open, -/
  frames : ∃ n, Encloses n state.frames
  /-- and at the end. -/
  document : ∀ d, state.document? = some d → d.Fits maxDepth

theorem Fits.of_encloses {state : State} {n : Nat} (h : Encloses n state.frames)
    (hdone : state.document? = none) : state.Fits :=
  ⟨⟨n, h⟩, by simp [hdone]⟩

/-- A value that fits where it is read is put where it belongs. -/
theorem fits_complete {n : Nat} {frames : List Frame} (h : Encloses n frames) {d : Document}
    (hd : d.Fits n) : (complete d frames).Fits := by
  cases h with
  | nil =>
    refine ⟨⟨maxDepth, .nil⟩, fun d' hd' => ?_⟩
    cases hd'
    exact hd
  | @cons n frame frames hframe h =>
    cases frame with
    | array elements => exact .of_encloses (.cons (List.forall_mem_cons.mpr ⟨hd, hframe⟩) h) rfl
    | object members key =>
      refine .of_encloses (n := n) (.cons ⟨hframe.1.insert key d, fun m hm => ?_⟩ h) rfl
      rcases Members.mem_insert hm with rfl | hm
      · exact hd
      · exact hframe.2 m hm

end State

/-! ### Steps -/

theorem eq_of_readKeyword {α : Type} {value x : α} {keyword s r : List UInt8}
    (h : readKeyword value keyword s = .ok (x, r)) : x = value := by
  fun_induction readKeyword value keyword s with
  | case1 s =>
    cases h
    rfl
  | case2 => cases h
  | case3 keyword b r' ih => exact ih h
  | case4 => cases h

/-- A value that has been read is a scalar, or the opening of an array or object. -/
theorem fits_of_readValue {n : Nat} {frames : List Frame} (h : Encloses n frames) {b : UInt8}
    {s r : List UInt8} {state : State} (hr : readValue b s frames = .ok (state, r)) :
    state.Fits := by
  -- a scalar fits at any place
  have hscalar {α : Type} {reading : Reading α} {wrap : α → Document}
      (hwrap : ∀ x, reading = .ok (x, r) → (wrap x).Fits n)
      (hr : reading.complete wrap frames = .ok (state, r)) : state.Fits := by
    obtain ⟨x, hx, rfl⟩ := Reading.complete_eq_ok hr
    exact State.fits_complete h (hwrap x hx)
  -- and an opening is refused where no level is left
  have hopening {opened : List Frame → State}
      (hopened : ∀ m, Encloses (m + 1) frames → (opened frames).Fits)
      (hr : openContainer opened frames s = .ok (state, r)) : state.Fits := by
    unfold openContainer at hr
    split at hr
    · rename_i hlt
      cases hr
      obtain ⟨m, hm⟩ := h.exists_succ hlt
      exact hopened m hm
    · cases hr
  unfold readValue at hr
  split at hr
  · exact hscalar (fun x _ => .string n x) hr
  split at hr
  · exact hopening (fun m hm => .of_encloses hm.cons_array rfl) hr
  split at hr
  · exact hopening (fun m hm => .of_encloses (hm.cons_object "") rfl) hr
  split at hr
  · exact hscalar (fun x _ => .number n x) hr
  split at hr
  · exact hscalar (fun x _ => .number n x) hr
  split at hr
  · exact hscalar (fun x hx => eq_of_readKeyword hx ▸ .null n) hr
  split at hr
  · exact hscalar (fun x hx => eq_of_readKeyword hx ▸ .bool n true) hr
  split at hr
  · exact hscalar (fun x hx => eq_of_readKeyword hx ▸ .bool n false) hr
  · cases hr

theorem fits_of_readKey {n : Nat} {members : Members} {key : String} {frames : List Frame}
    (h : Encloses n (.object members key :: frames)) {b : UInt8} {s r : List UInt8} {state : State}
    (hr : readKey b s members frames = .ok (state, r)) : state.Fits := by
  unfold readKey at hr
  split at hr
  · split at hr
    · cases hr
    · cases hr
      cases h with
      | cons hframe h => exact .of_encloses (n := n) (.cons hframe h) rfl
  · cases hr

namespace State

/-- **A step keeps the shape.** -/
theorem fits_of_step {state next : State} (h : state.Fits) {b : UInt8} {s r : List UInt8}
    (hr : state.step b s = .ok (next, r)) : next.Fits := by
  obtain ⟨⟨n, hn⟩, -⟩ := h
  cases state with
  | value frames => exact fits_of_readValue hn hr
  | arrayOpened frames =>
    rw [step] at hr
    split at hr
    · cases hr
      cases hn with
      | cons hframe h => exact fits_complete h (.array hframe)
    · exact fits_of_readValue hn hr
  | afterElement elements frames =>
    rw [step] at hr
    split at hr
    · cases hr
      exact .of_encloses hn rfl
    · split at hr
      · cases hr
        cases hn with
        | cons hframe h =>
          exact fits_complete h (.array fun d hd => hframe d (List.mem_reverse.mp hd))
      · cases hr
  | nextElement elements frames =>
    rw [step] at hr
    split at hr
    · cases hr
    · exact fits_of_readValue hn hr
  | objectOpened frames =>
    rw [step] at hr
    split at hr
    · cases hr
      cases hn with
      | cons hframe h => exact fits_complete h (.object hframe.1 hframe.2)
    · exact fits_of_readKey hn hr
  | afterKey members key frames =>
    rw [step] at hr
    split at hr
    · cases hr
      exact .of_encloses hn rfl
    · cases hr
  | afterMember members frames =>
    rw [step] at hr
    split at hr
    · cases hr
      exact .of_encloses hn rfl
    · split at hr
      · cases hr
        cases hn with
        | cons hframe h => exact fits_complete h (.object hframe.1 hframe.2)
      · cases hr
  | nextMember members frames =>
    rw [step] at hr
    split at hr
    · cases hr
    · exact fits_of_readKey hn hr
  | done d => cases hr

theorem document?_of_finish {state : State} {d : Document} (h : state.finish = .ok d) :
    state.document? = some d := by
  cases state <;> cases h
  rfl

/-- Steps keep it up to the end of the input. -/
theorem fits_of_run {state : State} (h : state.Fits) {s : List UInt8} {d : Document}
    (hr : state.run s = .ok d) : d.Fits maxDepth := by
  fun_induction run state s with
  | case1 state s hs => exact h.document d (document?_of_finish hr)
  | case2 state s b r hs f hf => cases hr
  | case3 state s b r hs next rest hstep ih => exact ih (fits_of_step h hstep) hr

end State

/-- **Every document that is read fits** the levels that the reader allows. -/
theorem fits_of_read {input : List UInt8} {d : Document} (h : read input = .ok d) :
    d.Fits maxDepth :=
  State.fits_of_run (.of_encloses .nil rfl) h

end Document

end JsonSieve
