import JsonSieve.Proofs.Document.Canonical
import JsonSieve.Proofs.Document.Strings
import JsonSieve.Proofs.Number.Value

/-!
# Documents are read from their spellings

One document can be written in many ways, and `JsonSieve.Document.Spelling` says in which:
with blanks around every token, the members of an object in any order, a number by any
numeral that stands for it, and a string in any of its own spellings. The relation is a
grammar and does not mention the reader. It does not ask for much: a key may stand twice in
an object, and more brackets may be open than the reader allows. A legible document has
neither, and each of its spellings is read as its canonical form
(`JsonSieve.Document.Spelling.parse_eq`).

The reader has to be followed from the middle: a document is spelled inside others, so that
the statement that is proved is about a text at any place where a value comes next, with any
frames around it and anything after it that does not go on with a number
(`JsonSieve.Document.IsReadAs`). Such places are at the start, after an opening bracket,
after a comma and after a colon. They differ in one byte only, the closing bracket, with
which no value begins (`JsonSieve.Document.State.Awaits`).

The induction is on the spelling, and the elements of an array and the members of an object
have inductions of their own, over what is still to come.
-/

namespace JsonSieve

namespace Document

open NumberText (EndsNumber skipBlanks_cons)

/-! ### Spellings -/

/-- Any number of blanks: spaces, tabs, line feeds and carriage returns. -/
def Blanks (w : List UInt8) : Prop :=
  ∀ b ∈ w, b ∈ [Ascii.space, Ascii.tab, Ascii.newline, Ascii.carriageReturn]

theorem blanks_nil : Blanks [] := List.forall_mem_nil _

/-- The spellings of a key, with blanks around it. -/
def KeySpelling (key : String) (t : List UInt8) : Prop :=
  ∃ before s after, Blanks before ∧ StringSpelling key s ∧ Blanks after ∧
    t = before ++ (s ++ after)

/-- A member of an object, and how it is spelled. -/
structure Entry where
  /-- The key, -/
  key : String
  /-- and its value. -/
  value : Document
  /-- The spelling of the key, -/
  keyText : List UInt8
  /-- and that of the value. -/
  valueText : List UInt8

namespace Entry

/-- The member. -/
def member (e : Entry) : String × Document := (e.key, e.value)

/-- Its spelling, with a colon after the key. -/
def text (e : Entry) : List UInt8 := e.keyText ++ Ascii.colon :: e.valueText

end Entry

/-- Texts with commas between them. -/
def separated : List (List UInt8) → List UInt8
  | [] => []
  | t :: ts => t ++ ts.flatMap (Ascii.comma :: ·)

/-- **The spellings of a document.** -/
inductive Spelling : Document → List UInt8 → Prop
  /-- The value `null`. -/
  | null : Spelling .null (['n', 'u', 'l', 'l'].map Ascii.byte)
  /-- The value `true`. -/
  | true : Spelling (.bool true) (['t', 'r', 'u', 'e'].map Ascii.byte)
  /-- The value `false`. -/
  | false : Spelling (.bool false) (['f', 'a', 'l', 's', 'e'].map Ascii.byte)
  /-- A number is spelled by a numeral in range that stands for it. -/
  | number (n : NumberText) {v : Document.Number} (h : n.number? = some v) :
    Spelling (.number v) (Utf8.encode n.text)
  /-- A string. -/
  | string {s : String} {t : List UInt8} (h : StringSpelling s t) : Spelling (.string s) t
  /-- The elements of an array, in order. -/
  | array {before : List UInt8} (hbefore : Blanks before) (parts : List (Document × List UInt8))
    (h : ∀ p ∈ parts, Spelling p.1 p.2) :
    Spelling (.array (parts.map Prod.fst)) (Ascii.leftBracket ::
      (before ++ (separated (parts.map Prod.snd) ++ [Ascii.rightBracket])))
  /-- The members of an object, in any order. -/
  | object {members : Members} {before : List UInt8} (hbefore : Blanks before)
    (entries : List Entry) (hmembers : (entries.map Entry.member).Perm members)
    (hkeys : ∀ e ∈ entries, KeySpelling e.key e.keyText)
    (h : ∀ e ∈ entries, Spelling e.value e.valueText) :
    Spelling (.object members) (Ascii.leftBrace ::
      (before ++ (separated (entries.map Entry.text) ++ [Ascii.rightBrace])))
  /-- Blanks may stand around any value. -/
  | blanks {d : Document} {before t after : List UInt8} (hbefore : Blanks before)
    (h : Spelling d t) (hafter : Blanks after) : Spelling d (before ++ (t ++ after))

/-! ### Blanks -/

theorem isBlank_of_blanks {w : List UInt8} (hw : Blanks w) : ∀ b ∈ w, isBlank b = true := by
  have hblank : ∀ b ∈ [Ascii.space, Ascii.tab, Ascii.newline, Ascii.carriageReturn],
      isBlank b = true := List.all_eq_true.mp rfl
  exact fun b hb => hblank b (hw b hb)

/-- States look beyond blanks. -/
theorem run_blanks {w : List UInt8} (hw : Blanks w) (state : State) (s : List UInt8) :
    state.run (w ++ s) = state.run s := by
  have hskip : skipBlanks (w ++ s) = skipBlanks s :=
    List.dropWhile_append_of_pos (isBlank_of_blanks hw)
  cases hs : skipBlanks s with
  | nil => rw [State.run_of_end (hskip.trans hs), State.run_of_end hs]
  | cons b r =>
    cases hstep : state.step b r with
    | error f => rw [State.run_of_failure (hskip.trans hs) hstep, State.run_of_failure hs hstep]
    | ok next => rw [State.run_of_step (hskip.trans hs) hstep, State.run_of_step hs hstep]

theorem endsNumber_cons {b : UInt8} (hdigit : (Ascii.digit? b).isSome = false)
    (hpoint : (b == Ascii.point) = false) (hletter : isExponentLetter b = false)
    (r : List UInt8) : EndsNumber (b :: r) :=
  ⟨stops_cons.mpr hdigit, stops_cons.mpr hpoint, stops_cons.mpr hletter⟩

theorem endsNumber_blanks {w : List UInt8} (hw : Blanks w) {r : List UInt8} (hr : EndsNumber r) :
    EndsNumber (w ++ r) := by
  cases w with
  | nil => exact hr
  | cons b w =>
    have hb := hw b List.mem_cons_self
    simp only [List.mem_cons, List.not_mem_nil, or_false] at hb
    rcases hb with rfl | rfl | rfl | rfl <;> exact endsNumber_cons rfl rfl rfl _

/-- Texts after their commas do not go on with a number, and neither does what closes
them. -/
theorem endsNumber_separated (ts : List (List UInt8)) {r : List UInt8} (hr : EndsNumber r) :
    EndsNumber (ts.flatMap (Ascii.comma :: ·) ++ r) := by
  cases ts with
  | nil => exact hr
  | cons t ts => exact endsNumber_cons rfl rfl rfl _

/-! ### One value -/

/-- A bracket, a brace, a comma or a colon is a step of its own. -/
theorem run_mark {state next : State} {b : UInt8} (hblank : isBlank b = false) (s : List UInt8)
    (hstep : state.step b s = .ok (next, s)) : state.run (b :: s) = next.run s :=
  State.run_of_step (skipBlanks_cons hblank s) hstep

/-- **A state in which a value comes next**, inside some frames. -/
def State.Awaits (state : State) (frames : List Frame) : Prop :=
  ∀ b s, b ≠ Ascii.rightBracket → state.step b s = readValue b s frames

theorem awaits_value (frames : List Frame) : (State.value frames).Awaits frames :=
  fun _ _ _ => rfl

theorem awaits_arrayOpened (frames : List Frame) :
    (State.arrayOpened frames).Awaits (.array [] :: frames) :=
  fun _ _ hb => if_neg hb

theorem awaits_nextElement (elements : List Document) (frames : List Frame) :
    (State.nextElement elements frames).Awaits (.array elements :: frames) :=
  fun _ _ hb => if_neg hb

/-- Where a value comes next, it is read as a value. -/
theorem State.Awaits.run_value {state next : State} {frames : List Frame}
    (h : state.Awaits frames) {b : UInt8} {s r : List UInt8} (hblank : isBlank b = false)
    (hread : readValue b s frames = .ok (next, r)) : state.run (b :: s) = next.run r := by
  -- with the closing bracket no value is read
  have hb : b ≠ Ascii.rightBracket := by
    rintro rfl
    cases hread
  exact State.run_of_step (skipBlanks_cons hblank s) ((h b s hb).trans hread)

/-- **A text is read as a document** where `n` levels are left, and reading goes on after
it. -/
def IsReadAs (n : Nat) (t : List UInt8) (d : Document) : Prop :=
  ∀ (state : State) (frames : List Frame) (r : List UInt8), state.Awaits frames →
    frames.length + n ≤ maxDepth → EndsNumber r →
    state.run (t ++ r) = (State.complete d frames).run r

theorem isReadAs_of_readValue {n : Nat} {b : UInt8} {t : List UInt8} {d : Document}
    (hblank : isBlank b = false)
    (hread : ∀ frames r, readValue b (t ++ r) frames = .ok (State.complete d frames, r)) :
    IsReadAs n (b :: t) d :=
  fun _ frames r hstate _ _ => hstate.run_value hblank (hread frames r)

theorem isReadAs_string {n : Nat} {s : String} {t : List UInt8} (h : StringSpelling s t) :
    IsReadAs n t (.string s) := by
  obtain ⟨t, rfl, hread⟩ := h.exists_readString
  refine isReadAs_of_readValue rfl fun frames r => ?_
  rw [readValue, if_pos rfl, hread]
  rfl

theorem isReadAs_number {n : Nat} {text : NumberText} {v : Document.Number}
    (h : text.number? = some v) : IsReadAs n (Utf8.encode text.text) (.number v) := by
  intro state frames r hstate _ hr
  have hreads := text.reads_readNumber hr
  rw [h] at hreads
  obtain ⟨b, s, hbytes, hblank, hvalue⟩ := text.exists_readValue_text frames r
  rw [hreads] at hvalue
  rw [NumberText.encode_text, hbytes]
  exact hstate.run_value hblank hvalue

theorem IsReadAs.blanks {n : Nat} {t : List UInt8} {d : Document} (h : IsReadAs n t d)
    {before after : List UInt8} (hbefore : Blanks before) (hafter : Blanks after) :
    IsReadAs n (before ++ (t ++ after)) d := by
  intro state frames r hstate hdepth hr
  rw [List.append_assoc, List.append_assoc, run_blanks hbefore,
    h state frames _ hstate hdepth (endsNumber_blanks hafter hr), run_blanks hafter]

/-! ### Elements -/

/-- The elements after the first one, and the end of the array. -/
theorem run_elements {n : Nat} {parts : List (Document × List UInt8)}
    (h : ∀ p ∈ parts, IsReadAs n p.2 p.1.canonical) (read : List Document) {frames : List Frame}
    (hdepth : frames.length + (n + 1) ≤ maxDepth) (r : List UInt8) :
    (State.afterElement read frames).run
        ((parts.map Prod.snd).flatMap (Ascii.comma :: ·) ++ Ascii.rightBracket :: r) =
      (State.complete (.array (read.reverse ++ (parts.map Prod.fst).map canonical)) frames).run
        r := by
  -- what has been read is generalized: each element goes in front of it
  induction parts generalizing read with
  | nil =>
    rw [List.map_nil, List.map_nil, List.map_nil, List.append_nil]
    exact run_mark rfl r rfl
  | cons p parts ih =>
    rw [List.forall_mem_cons] at h
    have hclose : EndsNumber (Ascii.rightBracket :: r) := endsNumber_cons rfl rfl rfl r
    rw [List.map_cons, List.flatMap_cons, List.cons_append, List.cons_append, run_mark rfl _ rfl,
      List.append_assoc,
      h.1 _ _ _ (awaits_nextElement read frames) (by rw [List.length_cons]; omega)
        (endsNumber_separated _ hclose)]
    rw [State.complete, ih h.2]
    simp

theorem isReadAs_array {n : Nat} {before : List UInt8} (hbefore : Blanks before)
    {parts : List (Document × List UInt8)} (h : ∀ p ∈ parts, IsReadAs n p.2 p.1.canonical) :
    IsReadAs (n + 1) (Ascii.leftBracket ::
        (before ++ (separated (parts.map Prod.snd) ++ [Ascii.rightBracket])))
      (.array ((parts.map Prod.fst).map canonical)) := by
  intro state frames r hstate hdepth _
  -- the frame of the array is the level that it takes
  have hopen (s : List UInt8) : readValue Ascii.leftBracket s frames =
      .ok (.arrayOpened frames, s) := by
    rw [readValue, if_neg (by decide), if_pos rfl, openContainer, if_pos (by omega)]
  rw [List.cons_append, hstate.run_value rfl (hopen _), List.append_assoc, run_blanks hbefore,
    List.append_assoc, List.singleton_append]
  cases parts with
  | nil => exact run_mark rfl r rfl
  | cons p parts =>
    rw [List.forall_mem_cons] at h
    have hclose : EndsNumber (Ascii.rightBracket :: r) := endsNumber_cons rfl rfl rfl r
    rw [List.map_cons, separated, List.append_assoc,
      h.1 _ _ _ (awaits_arrayOpened frames) (by rw [List.length_cons]; omega)
        (endsNumber_separated _ hclose)]
    exact run_elements h.2 [p.1.canonical] hdepth r

/-! ### Members -/

/-- Where a key comes next, it is read in each of its spellings. -/
theorem run_key {key : String} {t : List UInt8} (h : KeySpelling key t) {state : State}
    {members : Members} {frames : List Frame}
    (hstate : ∀ s, state.step Ascii.quote s = readKey Ascii.quote s members frames)
    (r : List UInt8) : state.run (t ++ r) = (State.afterKey members key frames).run r := by
  obtain ⟨before, s, after, hbefore, hs, hafter, rfl⟩ := h
  obtain ⟨s, rfl, hread⟩ := hs.exists_readString
  have hkey (r : List UInt8) : state.step Ascii.quote (s ++ r) =
      .ok (.afterKey members key frames, r) := by
    rw [hstate, readKey, if_pos rfl, hread]
  rw [List.append_assoc, run_blanks hbefore, List.append_assoc, List.cons_append,
    State.run_of_step (skipBlanks_cons rfl _) (hkey _), run_blanks hafter]

/-- **An entry is read** as its member, with the canonical form of the value. -/
structure Entry.IsRead (n : Nat) (e : Entry) : Prop where
  /-- The key is spelled where it stands, -/
  key : KeySpelling e.key e.keyText
  /-- and the value is read. -/
  value : IsReadAs n e.valueText e.value.canonical

/-- What is put into an object for an entry. -/
def Entry.canonical (e : Entry) : String × Document := (e.key, e.value.canonical)

theorem run_member {n : Nat} {e : Entry} (h : e.IsRead n) {state : State} {members : Members}
    {frames : List Frame} (hdepth : frames.length + (n + 1) ≤ maxDepth)
    (hstate : ∀ s, state.step Ascii.quote s = readKey Ascii.quote s members frames)
    {r : List UInt8} (hr : EndsNumber r) :
    state.run (e.text ++ r) =
      (State.afterMember (members.insert e.key e.value.canonical) frames).run r := by
  rw [Entry.text, List.append_assoc, run_key h.key hstate, List.cons_append, run_mark rfl _ rfl]
  exact h.value _ _ _ (awaits_value _) (by rw [List.length_cons]; omega) hr

/-- The members after the first one, and the end of the object. -/
theorem run_members {n : Nat} {entries : List Entry} (h : ∀ e ∈ entries, e.IsRead n)
    (read : Members) {frames : List Frame} (hdepth : frames.length + (n + 1) ≤ maxDepth)
    (r : List UInt8) :
    (State.afterMember read frames).run
        ((entries.map Entry.text).flatMap (Ascii.comma :: ·) ++ Ascii.rightBrace :: r) =
      (State.complete (.object (read.insertAll (entries.map Entry.canonical))) frames).run r := by
  induction entries generalizing read with
  | nil => exact run_mark rfl r rfl
  | cons e entries ih =>
    rw [List.forall_mem_cons] at h
    have hclose : EndsNumber (Ascii.rightBrace :: r) := endsNumber_cons rfl rfl rfl r
    rw [List.map_cons, List.flatMap_cons, List.cons_append, List.cons_append, run_mark rfl _ rfl,
      List.append_assoc, run_member h.1 hdepth (fun _ => rfl) (endsNumber_separated _ hclose),
      ih h.2]
    rfl

theorem isReadAs_object {n : Nat} {before : List UInt8} (hbefore : Blanks before)
    {entries : List Entry} (h : ∀ e ∈ entries, e.IsRead n) :
    IsReadAs (n + 1) (Ascii.leftBrace ::
        (before ++ (separated (entries.map Entry.text) ++ [Ascii.rightBrace])))
      (.object (Members.insertAll [] (entries.map Entry.canonical))) := by
  intro state frames r hstate hdepth _
  have hopen (s : List UInt8) : readValue Ascii.leftBrace s frames =
      .ok (.objectOpened frames, s) := by
    rw [readValue, if_neg (by decide), if_neg (by decide), if_pos rfl, openContainer,
      if_pos (by omega)]
  rw [List.cons_append, hstate.run_value rfl (hopen _), List.append_assoc, run_blanks hbefore,
    List.append_assoc, List.singleton_append]
  cases entries with
  | nil => exact run_mark rfl r rfl
  | cons e entries =>
    rw [List.forall_mem_cons] at h
    have hclose : EndsNumber (Ascii.rightBrace :: r) := endsNumber_cons rfl rfl rfl r
    rw [List.map_cons, separated, List.append_assoc,
      run_member h.1 hdepth (fun _ => rfl) (endsNumber_separated _ hclose)]
    exact run_members h.2 _ hdepth r

/-! ### Documents -/

/-- The members of an object are put in order as they are read, in whatever order they are
spelled. -/
theorem canonical_object_of_perm {members : Members} (hkeys : (members.map Prod.fst).Nodup)
    {entries : List Entry} (h : (entries.map Entry.member).Perm members) :
    (object members).canonical =
      object (Members.insertAll [] (entries.map Entry.canonical)) := by
  have hentries : entries.map Entry.canonical =
      (entries.map Entry.member).map fun m => (m.1, m.2.canonical) := by
    rw [List.map_map]
    rfl
  rw [← map_fst_canonical] at hkeys
  rw [canonical_object, hentries, Members.insertAll_eq_of_perm hkeys (h.map _).symm]

/-- **Every spelling of a legible document is read as its canonical form**, wherever it
stands. -/
theorem Spelling.isReadAs {d : Document} {t : List UInt8} (h : Spelling d t) {n : Nat}
    (hd : d.Legible n) : IsReadAs n t d.canonical := by
  induction h generalizing n with
  | null => exact isReadAs_of_readValue (t := ['u', 'l', 'l'].map Ascii.byte) rfl fun _ _ => rfl
  | true => exact isReadAs_of_readValue (t := ['r', 'u', 'e'].map Ascii.byte) rfl fun _ _ => rfl
  | false =>
    exact isReadAs_of_readValue (t := ['a', 'l', 's', 'e'].map Ascii.byte) rfl fun _ _ => rfl
  | number text h => exact isReadAs_number h
  | string h => exact isReadAs_string h
  | array hbefore parts h ih =>
    cases hd with
    | array hd =>
      rw [canonical_array]
      exact isReadAs_array hbefore fun p hp => ih p hp (hd p.1 (List.mem_map_of_mem hp))
  | object hbefore entries hmembers hkeys h ih =>
    cases hd with
    | object hnodup hd =>
      rw [canonical_object_of_perm hnodup hmembers]
      refine isReadAs_object hbefore fun e he => ⟨hkeys e he, ih e he ?_⟩
      exact hd e.member (hmembers.mem_iff.mp (List.mem_map_of_mem he))
  | blanks hbefore h hafter ih => exact (ih hd).blanks hbefore hafter

/-- **A legible document is read from each of its spellings**, as its canonical form. -/
theorem Spelling.parse_eq {d : Document} {t : List UInt8} (h : Spelling d t)
    (hd : d.Legible maxDepth) : parse t = .ok d.canonical := by
  have hread : read t = .ok d.canonical := by
    have hrun := h.isReadAs hd (.value []) [] [] (awaits_value []) (by decide)
      ⟨stops_nil, stops_nil, stops_nil⟩
    rw [List.append_nil] at hrun
    exact hrun.trans (State.run_of_end rfl)
  rw [parse, hread]

end Document

end JsonSieve
