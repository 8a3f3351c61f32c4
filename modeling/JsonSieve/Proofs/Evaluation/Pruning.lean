import JsonSieve.Proofs.Evaluation.Stops

/-!
# What a condition does not look at

A condition sees only the members whose keys are named in its path. All other members can be
taken out of a document, however deep they are, without a change of the answer
(`JsonSieve.Condition.satisfiedBy_prune`): not even the members of an object to which the path
leads count, nor those of elements that are passed over.

Pruning (`JsonSieve.Document.prune`) keeps arrays as long as they are, and the kept members of
an object under their keys. So it commutes with everything that a path does: with looking up a
member and following indices, with a step (`JsonSieve.Segment.targets_prune`), and with the
opening of arrays at the end. The leaves of a pruned document are therefore the pruned leaves
(`JsonSieve.leaves_prune`), and a leaf is judged without looking into it.
-/

namespace JsonSieve

namespace Document

/-! ### Pruning -/

mutual

/-- **A document without the members whose keys are not among some keys**, at every depth. -/
def prune (keys : List String) : Document → Document
  | array elements => array (pruneElements keys elements)
  | object members => object (pruneMembers keys members)
  | null => null
  | bool b => bool b
  | number n => number n
  | string s => string s

/-- The elements of an array are all kept. -/
def pruneElements (keys : List String) : List Document → List Document
  | [] => []
  | d :: rest => d.prune keys :: pruneElements keys rest

/-- The members of an object are kept if their keys are among the keys. -/
def pruneMembers (keys : List String) : List (String × Document) → List (String × Document)
  | [] => []
  | (k, v) :: rest =>
    if k ∈ keys then (k, v.prune keys) :: pruneMembers keys rest else pruneMembers keys rest

end

variable (keys : List String)

theorem pruneElements_eq_map (elements : List Document) :
    pruneElements keys elements = elements.map (prune keys) := by
  induction elements with
  | nil => rfl
  | cons d rest ih => rw [pruneElements, ih, List.map_cons]

theorem isArray_prune (d : Document) : (d.prune keys).isArray = d.isArray := by
  cases d <;> rfl

/-! ### Members and elements -/

/-- A member that is kept has its pruned value. -/
theorem lookup_pruneMembers {key : String} (h : key ∈ keys) (members : Members) :
    (pruneMembers keys members).lookup key = (members.lookup key).map (prune keys) := by
  induction members with
  | nil => rfl
  | cons m members ih =>
    obtain ⟨k, v⟩ := m
    rw [pruneMembers, List.lookup_cons]
    by_cases hk : key = k
    · rw [if_pos (hk ▸ h), List.lookup_cons, beq_iff_eq.mpr hk]
      rfl
    · -- another member is skipped, whether it is kept or not
      have hne : (key == k) = false := beq_eq_false_iff_ne.mpr hk
      rw [hne, ← ih]
      split
      · rw [List.lookup_cons, hne]
      · rfl

/-- Indices lead to the pruned value. -/
theorem descend?_prune (indices : List Nat) (d : Document) :
    (d.prune keys).descend? indices = (d.descend? indices).map (prune keys) := by
  induction indices generalizing d with
  | nil => rfl
  | cons i indices ih =>
    cases d with
    | array elements =>
      rw [prune, pruneElements_eq_map, descend?, descend?, List.getElem?_map]
      cases elements[i]? with
      | none => rfl
      | some w => exact ih w
    | _ => rfl

end Document

open Document (prune)

/-! ### Paths -/

/-- The key of a step, if it has one, is among some keys. -/
def Segment.NamedIn (s : Segment) (keys : List String) : Prop :=
  ∀ key, s.key = some key → key ∈ keys

section Paths

variable {keys : List String} {s : Segment} (hs : s.NamedIn keys)
include hs

theorem Segment.leadsTo?_prune (d : Document) :
    s.leadsTo? (d.prune keys) = (s.leadsTo? d).map (prune keys) := by
  unfold leadsTo?
  cases hk : s.key with
  | none => exact Document.descend?_prune keys s.indices d
  | some key =>
    cases d with
    | object members =>
      dsimp only [prune]
      rw [Document.lookup_pruneMembers keys (hs key hk)]
      cases members.lookup key with
      | none => rfl
      | some w => exact Document.descend?_prune keys s.indices w
    | _ => rfl

/-- **A step leads to the same values, pruned.** -/
theorem Segment.targets_prune (d : Document) :
    s.targets (d.prune keys) = (s.targets d).map (prune keys) := by
  induction d using Segment.targets_induction s with
  | opened k elements hk ih =>
    rw [prune, Document.pruneElements_eq_map, targets_array hk, targets_array hk,
      List.flatMap_map, List.map_flatMap]
    exact List.flatMap_congr ih
  | taken d hd =>
    have hd' : ¬s.Opens (d.prune keys) := fun h => hd ⟨h.1, Document.isArray_prune keys d ▸ h.2⟩
    rw [targets_of_not_opens hd, targets_of_not_opens hd', leadsTo?_prune hs]
    cases s.leadsTo? d <;> rfl

end Paths

/-- Arrays at the end are opened alike. -/
theorem leaves_nil_prune (keys : List String) (d : Document) :
    leaves (d.prune keys) [] = (leaves d []).map (prune keys) := by
  induction d using Document.arrays_induction with
  | opened elements ih =>
    rw [prune, Document.pruneElements_eq_map, leaves_nil_array, leaves_nil_array,
      List.flatMap_map, List.map_flatMap]
    exact List.flatMap_congr ih
  | closed d hd =>
    have hd' : (d.prune keys).isArray = false := (Document.isArray_prune keys d).trans hd
    rw [leaves_nil_of_not_array hd, leaves_nil_of_not_array hd']
    rfl

/-- **The leaves of a pruned document are the pruned leaves.** -/
theorem leaves_prune {keys : List String} {path : List Segment}
    (h : ∀ s ∈ path, s.NamedIn keys) (d : Document) :
    leaves (d.prune keys) path = (leaves d path).map (prune keys) := by
  induction path generalizing d with
  | nil => exact leaves_nil_prune keys d
  | cons s path ih =>
    rw [List.forall_mem_cons] at h
    rw [leaves_cons, leaves_cons, Segment.targets_prune h.1, List.flatMap_map, List.map_flatMap]
    exact List.flatMap_congr fun w _ => ih h.2 w

namespace Condition

/-- A leaf is judged without looking into it. -/
theorem judgement_prune (c : Condition) (keys : List String) (l : Document) :
    c.judgement (l.prune keys) = c.judgement l := by
  cases l <;> rfl

/-- The keys that the path of a condition names. -/
def keys (c : Condition) : List String := c.path.segments.filterMap Segment.key

theorem namedIn_keys {c : Condition} {s : Segment} (hs : s ∈ c.path.segments) :
    s.NamedIn c.keys :=
  fun _ hk => List.mem_filterMap.mpr ⟨s, hs, hk⟩

theorem follow_prune (c : Condition) {keys : List String} {path : List Segment}
    (h : ∀ s ∈ path, s.NamedIn keys) (d : Document) :
    c.follow path (d.prune keys) = c.follow path d := by
  rw [follow_eq_firstAnswer, follow_eq_firstAnswer, leaves_prune h, List.map_map]
  exact congrArg firstAnswer (List.map_congr_left fun l _ => c.judgement_prune keys l)

/-- **An answer depends only on the members that the path names.** All others can be taken out
of a document, at every depth, without a change of the answer; and so two documents have the
same answer if they are the same after that. -/
theorem satisfiedBy_prune (c : Condition) (d : Document) :
    c.satisfiedBy (d.prune c.keys) = c.satisfiedBy d ∧
      ∀ d' : Document, d'.prune c.keys = d.prune c.keys → c.satisfiedBy d' = c.satisfiedBy d := by
  have hprune (d : Document) : c.satisfiedBy (d.prune c.keys) = c.satisfiedBy d :=
    c.follow_prune (fun _ hs => namedIn_keys hs) d
  refine ⟨hprune d, fun d' h => ?_⟩
  rw [← hprune d', h, hprune d]

/-- The condition `a.b < 1`. -/
def belowOne : Condition := ⟨⟨"a.b", [⟨some "a", []⟩, ⟨some "b", []⟩]⟩, .less, "1"⟩

/-- Neither what is beside the object at the end of the path nor what is inside it counts. -/
theorem satisfiedBy_prune_beside :
    belowOne.satisfiedBy (.object
        [("a", .array [.object [("b", .object [("c", .null)])], .object [("b", .bool true)]])]) =
      belowOne.satisfiedBy (.object [("", .object [("a", .null)]),
        ("a", .array [.object [("b", .object [])], .object [("a!", .null), ("b", .bool true)]])]) :=
  (satisfiedBy_prune belowOne _).2 _ rfl

end Condition

end JsonSieve
