import JsonSieve.Proofs.Condition.PathReading

/-!
# Quoted regions of any text

The texts of the grammar are not the only ones that are scanned for an operator. What the
scan makes of an arbitrary text is said here without it. Outside quoted regions points cut
a text into *stretches* (`JsonSieve.Stretch`), and a region is found in one place only: if
the first character of a stretch, blanks apart, is a quotation mark, then it opens a region
that the next quotation mark of the same kind closes. All other quotation marks are
characters like any other, and so is everything in a region.

| after stretches with a point after each        | where the scan is       |
|------------------------------------------------|-------------------------|
| one more (`JsonSieve.IsClosed`)                | outside quotation marks |
| an open quotation mark, after blanks, and no   | between quotation marks |
| other of its kind (`JsonSieve.IsUnclosed`)     |                         |

The table is read from left to right by `JsonSieve.IsClosed.run` and
`JsonSieve.IsUnclosed.run`. That there is no third row is
`JsonSieve.isClosed_or_isUnclosed`: every text that the scan walks over without meeting an
operator is one of the two.
-/

namespace JsonSieve

open Grammar

/-! ### Stretches -/

/-- **A stretch of text** without a point outside quoted regions. -/
inductive Stretch where
  /-- A region between two equal quotation marks, with blanks before it and anything after. -/
  | quoted (before : Blanks) (quote : Char) (region after : List Char)
    (quote_isQuote : isQuote quote = true) (quote_not_mem : quote ∉ region)
    (point_not_mem : '.' ∉ after)
  /-- No region, as the first character that is not blank is no quotation mark. -/
  | plain (before : Blanks) (after : List Char) (not_blank : Stops Text.isBlank after)
    (not_quote : Stops isQuote after) (point_not_mem : '.' ∉ after)

namespace Stretch

/-- The text of a stretch. -/
def text : Stretch → List Char
  | quoted before q region after _ _ _ => before.1 ++ q :: (region ++ q :: after)
  | plain before after _ _ _ => before.1 ++ after

/-- What stands outside the quoted region of a stretch. -/
def outside : Stretch → List Char
  | quoted before _ _ after _ _ _ => before.1 ++ after
  | plain before after _ _ _ => before.1 ++ after

/-- A stretch with no operator character outside its region. -/
def HasNoOperator (s : Stretch) : Prop := ∀ c ∈ s.outside, isOperatorChar c = false

/-- The text of stretches with a point after each. -/
def texts : List Stretch → List Char
  | [] => []
  | s :: ss => s.text ++ '.' :: texts ss

@[simp] theorem texts_nil : texts [] = [] := rfl

@[simp] theorem texts_cons (s : Stretch) (ss : List Stretch) :
    texts (s :: ss) = s.text ++ '.' :: texts ss := rfl

end Stretch

/-! ### What the scan makes of stretches -/

namespace ScanState

/-- Without a quotation mark at its start a text without points is walked over as a whole. -/
theorem run_start_plain {t : List Char} (hb : Stops Text.isBlank t) (hq : Stops isQuote t)
    (hp : '.' ∉ t) : start.run t = start ∨ start.run t = inside := by
  cases t with
  | nil => exact Or.inl rfl
  | cons c t => exact Or.inr (run_start_of_ordinary (stops_cons.mp hq) (stops_cons.mp hb) hp)

theorem passes_start_plain {t : List Char} (hb : Stops Text.isBlank t) (hq : Stops isQuote t)
    (hp : '.' ∉ t) : start.Passes t ↔ ∀ c ∈ t, isOperatorChar c = false := by
  cases t with
  | nil => simp
  | cons c t => exact passes_start_of_ordinary (stops_cons.mp hq) (stops_cons.mp hb) hp

theorem next_point {state : ScanState} (h : state = start ∨ state = inside) :
    state.next '.' = start := by
  rcases h with rfl | rfl <;> rfl

theorem atOperator_of_unquoted {state : ScanState} (h : state = start ∨ state = inside)
    (c : Char) : state.atOperator c = isOperatorChar c := by
  rcases h with rfl | rfl <;> rfl

end ScanState

namespace Stretch

open ScanState

/-- **After a stretch the scan is outside quotation marks.** -/
theorem run_text (s : Stretch) : start.run s.text = start ∨ start.run s.text = inside := by
  cases s with
  | quoted before q region after hq hregion hp =>
    rw [text, run_append, run_start_blanks before.2, run_start_quoted hq hregion, run_inside hp]
    exact Or.inr rfl
  | plain before after hb hq hp =>
    rw [text, run_append, run_start_blanks before.2]
    exact run_start_plain hb hq hp

/-- **The scan meets the operator characters outside the region** of a stretch, and no
others. -/
theorem passes_text (s : Stretch) : start.Passes s.text ↔ s.HasNoOperator := by
  have hblanks (w : Blanks) : ∀ c ∈ w.1, isOperatorChar c = false := fun c hc =>
    isOperatorChar_eq_false_of_isBlank (w.2 c hc)
  cases s with
  | quoted before q region after hq hregion hp =>
    rw [text, passes_append, run_start_blanks before.2, passes_start_quoted hq hregion,
      passes_inside hp, HasNoOperator, outside, List.forall_mem_append]
    exact and_congr_left' (iff_of_true (passes_start_blanks before.2) (hblanks before))
  | plain before after hb hq hp =>
    rw [text, passes_append, run_start_blanks before.2, passes_start_plain hb hq hp,
      HasNoOperator, outside, List.forall_mem_append]
    exact and_congr_left' (iff_of_true (passes_start_blanks before.2) (hblanks before))

theorem run_texts (ss : List Stretch) : start.run (texts ss) = start := by
  induction ss with
  | nil => rfl
  | cons s ss ih => rw [texts_cons, run_append, run_cons, next_point s.run_text, ih]

theorem passes_texts {ss : List Stretch} :
    start.Passes (texts ss) ↔ ∀ s ∈ ss, s.HasNoOperator := by
  induction ss with
  | nil => simp
  | cons s ss ih =>
    rw [texts_cons, passes_append, passes_cons, next_point s.run_text,
      atOperator_of_unquoted s.run_text, s.passes_text, ih, List.forall_mem_cons]
    exact and_congr_right' (and_iff_right rfl)

end Stretch

/-! ### Texts that are made of stretches -/

/-- **A text whose regions are all closed**, with no operator character outside them. -/
def IsClosed (text : List Char) : Prop :=
  ∃ (ss : List Stretch) (last : Stretch), (∀ s ∈ ss, s.HasNoOperator) ∧ last.HasNoOperator ∧
    text = Stretch.texts ss ++ last.text

/-- **A text whose last region is opened by `q` and never closed**, with no operator character
outside its regions. -/
def IsUnclosed (q : Char) (text : List Char) : Prop :=
  ∃ (ss : List Stretch) (before : Blanks) (body : List Char), (∀ s ∈ ss, s.HasNoOperator) ∧
    isQuote q = true ∧ q ∉ body ∧ text = Stretch.texts ss ++ (before.1 ++ q :: body)

open ScanState

theorem IsClosed.passes {text : List Char} (h : IsClosed text) : start.Passes text := by
  obtain ⟨ss, last, hss, hlast, rfl⟩ := h
  rw [passes_append, Stretch.run_texts, last.passes_text]
  exact ⟨Stretch.passes_texts.mpr hss, hlast⟩

theorem IsClosed.run {text : List Char} (h : IsClosed text) :
    start.run text = start ∨ start.run text = inside := by
  obtain ⟨ss, last, -, -, rfl⟩ := h
  rw [run_append, Stretch.run_texts]
  exact last.run_text

theorem IsClosed.run_ne_quoted {text : List Char} (h : IsClosed text) (q : Char) :
    start.run text ≠ quoted q := by
  rcases h.run with hrun | hrun <;> simp [hrun]

theorem IsUnclosed.isQuote {q : Char} {text : List Char} (h : IsUnclosed q text) :
    isQuote q = true := by
  obtain ⟨-, -, -, -, hq, -, -⟩ := h
  exact hq

theorem IsUnclosed.passes {q : Char} {text : List Char} (h : IsUnclosed q text) :
    start.Passes text := by
  obtain ⟨ss, before, body, hss, hq, hbody, rfl⟩ := h
  have hopen : start.next q = quoted q := by simp [ScanState.next, hq]
  rw [passes_append, Stretch.run_texts, passes_append, run_start_blanks before.2, passes_cons,
    hopen]
  exact ⟨Stretch.passes_texts.mpr hss, passes_start_blanks before.2,
    isOperatorChar_eq_false_of_isQuote hq, passes_quoted hbody⟩

theorem IsUnclosed.run {q : Char} {text : List Char} (h : IsUnclosed q text) :
    start.run text = quoted q := by
  obtain ⟨ss, before, body, -, hq, hbody, rfl⟩ := h
  have hopen : start.next q = quoted q := by simp [ScanState.next, hq]
  rw [run_append, Stretch.run_texts, run_append, run_start_blanks before.2, run_cons, hopen,
    run_quoted hbody]

/-! ### All texts are -/

/-- What follows a stretch and a point decides. -/
theorem Stretch.isClosed_or_isUnclosed_cons (s : Stretch) {next : List Char}
    (h : start.Passes (s.text ++ '.' :: next))
    (ih : start.Passes next → IsClosed next ∨ ∃ q, IsUnclosed q next) :
    IsClosed (s.text ++ '.' :: next) ∨ ∃ q, IsUnclosed q (s.text ++ '.' :: next) := by
  rw [passes_append, passes_cons, next_point s.run_text] at h
  obtain ⟨hs, -, hnext⟩ := h
  have hcons {ss : List Stretch} (hss : ∀ s ∈ ss, s.HasNoOperator) :
      ∀ s' ∈ s :: ss, s'.HasNoOperator :=
    List.forall_mem_cons.mpr ⟨s.passes_text.mp hs, hss⟩
  rcases ih hnext with ⟨ss, last, hss, hlast, rfl⟩ | ⟨q, ss, before, body, hss, hq, hbody, rfl⟩
  · exact Or.inl ⟨s :: ss, last, hcons hss, hlast, by simp⟩
  · exact Or.inr ⟨q, s :: ss, before, body, hcons hss, hq, hbody, by simp⟩

theorem Stretch.isClosed_text (s : Stretch) (h : start.Passes s.text) : IsClosed s.text :=
  ⟨[], s, by simp, s.passes_text.mp h, rfl⟩

/-- **Every text that the scan walks over** has closed regions only, or a last one that is
not. -/
theorem isClosed_or_isUnclosed (text : List Char) (h : start.Passes text) :
    IsClosed text ∨ ∃ q, IsUnclosed q text := by
  obtain ⟨w, hw, htext⟩ := Text.exists_eq_trimStart text
  have hstops : Stops Text.isBlank (Text.trimStart text) := stops_dropWhile text
  rcases hrest : Text.trimStart text with _ | ⟨c, r⟩
  · rw [hrest] at htext
    rw [htext] at h ⊢
    exact Or.inl ((Stretch.plain ⟨w, hw⟩ [] stops_nil stops_nil List.not_mem_nil).isClosed_text h)
  rw [hrest] at htext hstops
  by_cases hq : isQuote c = true
  · by_cases hclose : c ∈ r
    · -- a region, and what is after it up to the next point
      obtain ⟨region, after, rfl, hregion⟩ := List.eq_append_cons_of_mem hclose
      by_cases hpoint : '.' ∈ after
      · obtain ⟨a, next, rfl, ha⟩ := List.eq_append_cons_of_mem hpoint
        have hs : text = (Stretch.quoted ⟨w, hw⟩ c region a hq hregion ha).text ++ '.' :: next := by
          simp [htext, Stretch.text]
        have hlt : next.length < text.length := by simp [htext]; omega
        rw [hs] at h ⊢
        exact Stretch.isClosed_or_isUnclosed_cons _ h (isClosed_or_isUnclosed next)
      · rw [htext] at h ⊢
        exact Or.inl ((Stretch.quoted ⟨w, hw⟩ c region after hq hregion hpoint).isClosed_text h)
    · exact Or.inr ⟨c, [], ⟨w, hw⟩, r, by simp, hq, hclose, htext⟩
  · have hstopsq : Stops isQuote (c :: r) := stops_cons.mpr (Bool.eq_false_iff.mpr hq)
    by_cases hpoint : '.' ∈ c :: r
    · obtain ⟨a, next, ha, hanot⟩ := List.eq_append_cons_of_mem hpoint
      have hs : text = (Stretch.plain ⟨w, hw⟩ a (ha ▸ hstops).of_append (ha ▸ hstopsq).of_append
          hanot).text ++ '.' :: next := by
        simp [htext, ha, Stretch.text]
      have hlt : next.length < text.length := by simp [htext, ha]; omega
      rw [hs] at h ⊢
      exact Stretch.isClosed_or_isUnclosed_cons _ h (isClosed_or_isUnclosed next)
    · rw [htext] at h ⊢
      exact Or.inl ((Stretch.plain ⟨w, hw⟩ (c :: r) hstops hstopsq hpoint).isClosed_text h)
termination_by text.length

end JsonSieve
