import Mathlib.Data.List.Basic
import JsonSieve.Proofs.Document.Shape

/-!
# The canonical form of a document

A document whose members are listed in any order has a canonical form
(`JsonSieve.Document.canonical`), in which those of every object stand in the order of
their keys, as the reader keeps them. Where no key stands twice it does not depend on the
order in which the members were given (`JsonSieve.Document.Members.insertAll_eq_of_perm`):
putting them in one after another gives a permutation of them that is in order, and there
is only one.

Documents without repeated keys, with a bound on how deep they are nested, are the legible
ones (`JsonSieve.Document.Legible`). What fits is legible, and is its own canonical form
(`JsonSieve.Document.Fits.canonical_eq`).
-/

namespace JsonSieve

namespace Document

/-! ### Members put in order -/

namespace Members

variable {members given : Members} {key : String} {value : Document}

/-- A new key is put between the others. -/
theorem insert_perm (h : key ∉ members.map Prod.fst) :
    (members.insert key value).Perm ((key, value) :: members) := by
  induction members with
  | nil => exact .refl _
  | cons head rest ih =>
    obtain ⟨k, v⟩ := head
    rw [List.map_cons, List.mem_cons, not_or] at h
    rw [insert]
    split
    · exact .refl _
    · rename_i heq
      exact absurd (Utf8.eq_of_order_eq heq) h.1
    · exact ((ih h.2).cons (k, v)).trans (.swap _ _ _)

/-- The members with further ones put in, one after another. -/
def insertAll (members given : Members) : Members :=
  given.foldl (fun members m => members.insert m.1 m.2) members

@[simp] theorem insertAll_nil (members : Members) : members.insertAll [] = members := rfl

@[simp] theorem insertAll_cons (members : Members) (m : String × Document) (given : Members) :
    members.insertAll (m :: given) = (members.insert m.1 m.2).insertAll given := rfl

theorem Sorted.insertAll (h : Sorted members) (given : Members) :
    Sorted (members.insertAll given) := by
  induction given generalizing members with
  | nil => exact h
  | cons m given ih => exact ih (h.insert m.1 m.2)

/-- Where no key stands twice nothing is lost. -/
theorem insertAll_perm (h : ((members ++ given).map Prod.fst).Nodup) :
    (members.insertAll given).Perm (members ++ given) := by
  induction given generalizing members with
  | nil => rw [List.append_nil, insertAll_nil]
  | cons m given ih =>
    have hnew : m.1 ∉ members.map Prod.fst := by
      rw [List.map_append, List.nodup_append] at h
      exact fun hm => h.2.2 _ hm m.1 (List.mem_cons_self) rfl
    have hinsert : (members.insert m.1 m.2 ++ given).Perm (members ++ m :: given) :=
      ((insert_perm hnew).append_right given).trans List.perm_middle.symm
    rw [insertAll_cons]
    exact (ih ((hinsert.map Prod.fst).nodup_iff.mpr h)).trans hinsert

/-- The same members can be put in order in one way only. -/
theorem Sorted.eq_of_perm {members' : Members} (h : Sorted members) (h' : Sorted members')
    (hperm : members.Perm members') : members = members' := by
  refine hperm.eq_of_pairwise (fun a b _ _ hab hba => ?_) h h'
  have hlt : Utf8.order a.1 b.1 = .lt := hab
  exact absurd hba (Std.OrientedCmp.not_lt_of_lt hlt)

/-- Members in order have no key twice. -/
theorem Sorted.nodup (h : Sorted members) : (members.map Prod.fst).Nodup := by
  refine List.Pairwise.map Prod.fst (fun a b hab heq => ?_) h
  have hlt : Utf8.order b.1 b.1 = .lt := heq ▸ hab
  exact Std.OrientedCmp.not_lt_of_lt hlt hlt

theorem sorted_insertAll_nil (given : Members) : Sorted (insertAll [] given) :=
  Sorted.insertAll List.Pairwise.nil given

theorem insertAll_nil_perm (h : (given.map Prod.fst).Nodup) : (insertAll [] given).Perm given :=
  insertAll_perm h

/-- **The order in which members are put in does not matter**, where no key stands twice. -/
theorem insertAll_eq_of_perm {given' : Members} (h : (given.map Prod.fst).Nodup)
    (hperm : given.Perm given') : insertAll [] given = insertAll [] given' := by
  have h' : (given'.map Prod.fst).Nodup := (hperm.map Prod.fst).nodup_iff.mp h
  have hsame : (insertAll [] given).Perm (insertAll [] given') :=
    (insertAll_nil_perm h).trans (hperm.trans (insertAll_nil_perm h').symm)
  exact (sorted_insertAll_nil given).eq_of_perm (sorted_insertAll_nil given') hsame

/-- Members that are in order stay as they are. -/
theorem Sorted.insertAll_eq (h : Sorted members) : Members.insertAll [] members = members :=
  (sorted_insertAll_nil members).eq_of_perm h (insertAll_nil_perm h.nodup)

end Members

/-! ### Canonical forms -/

mutual

/-- **The document with the members of its objects in the order of their keys.** -/
def canonical : Document → Document
  | null => null
  | bool value => bool value
  | number value => number value
  | string value => string value
  | array elements => array (canonicalElements elements)
  | object members => object (Members.insertAll [] (canonicalMembers members))

/-- The canonical forms of elements. -/
def canonicalElements : List Document → List Document
  | [] => []
  | d :: rest => d.canonical :: canonicalElements rest

/-- The members with the canonical forms of their values. -/
def canonicalMembers : List (String × Document) → List (String × Document)
  | [] => []
  | (k, v) :: rest => (k, v.canonical) :: canonicalMembers rest

end

theorem canonicalElements_eq_map (elements : List Document) :
    canonicalElements elements = elements.map canonical := by
  induction elements with
  | nil => rfl
  | cons d rest ih => rw [canonicalElements, ih, List.map_cons]

theorem canonicalMembers_eq_map (members : Members) :
    canonicalMembers members = members.map fun m => (m.1, m.2.canonical) := by
  induction members with
  | nil => rfl
  | cons m rest ih => rw [canonicalMembers, ih, List.map_cons]

@[simp] theorem canonical_array (elements : List Document) :
    (array elements).canonical = array (elements.map canonical) := by
  rw [canonical, canonicalElements_eq_map]

@[simp] theorem canonical_object (members : Members) :
    (object members).canonical =
      object (Members.insertAll [] (members.map fun m => (m.1, m.2.canonical))) := by
  rw [canonical, canonicalMembers_eq_map]

/-- Canonical forms of values do not change the keys. -/
theorem map_fst_canonical (members : Members) :
    (members.map fun m => (m.1, m.2.canonical)).map Prod.fst = members.map Prod.fst := by
  rw [List.map_map]
  rfl

/-! ### Legible documents -/

/-- **A document that can be read off its spellings** with `n` levels: its arrays and
objects contain one another at most `n` deep, and no object has a key twice. -/
inductive Legible : Nat → Document → Prop
  /-- The value `null` takes no level. -/
  | null (n : Nat) : Legible n .null
  /-- A truth value takes none. -/
  | bool (n : Nat) (value : Bool) : Legible n (.bool value)
  /-- A number takes none. -/
  | number (n : Nat) (value : Document.Number) : Legible n (.number value)
  /-- A string takes none. -/
  | string (n : Nat) (value : String) : Legible n (.string value)
  /-- An array takes one, and so does an empty one. -/
  | array {n : Nat} {elements : List Document} (h : ∀ d ∈ elements, Legible n d) :
    Legible (n + 1) (.array elements)
  /-- So does an object. -/
  | object {n : Nat} {members : Members} (hkeys : (members.map Prod.fst).Nodup)
    (h : ∀ m ∈ members, Legible n m.2) : Legible (n + 1) (.object members)

/-- **What fits is legible**, -/
theorem Fits.legible {n : Nat} {d : Document} (h : d.Fits n) : d.Legible n := by
  induction h with
  | null n => exact .null n
  | bool n value => exact .bool n value
  | number n value => exact .number n value
  | string n value => exact .string n value
  | array h ih => exact .array ih
  | object hsorted h ih => exact .object hsorted.nodup ih

/-- **and is its own canonical form.** -/
theorem Fits.canonical_eq {n : Nat} {d : Document} (h : d.Fits n) : d.canonical = d := by
  induction h with
  | null n => rfl
  | bool n value => rfl
  | number n value => rfl
  | string n value => rfl
  | array h ih => rw [canonical_array, List.map_congr_left ih, List.map_id']
  | @object n members hsorted h ih =>
    have hvalues : members.map (fun m => (m.1, m.2.canonical)) = members := by
      refine (List.map_congr_left fun m hm => ?_).trans (List.map_id _)
      rw [ih m hm, id]
    rw [canonical_object, hvalues, hsorted.insertAll_eq]

end Document

end JsonSieve
