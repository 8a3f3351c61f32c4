import Mathlib.Tactic.SplitIfs
import JsonSieve.CommandLine.Arguments

/-!
# Command lines that make sense

A call of `filter` is a list of items, in any order: the condition, exactly once and written
in one of five ways (`JsonSieve.CommandLine.Spelling`), and the flag, at most once. A mark
after which nothing is an option may follow (`JsonSieve.CommandLine.Call`). Which texts a way
of writing can carry is its own matter (`JsonSieve.CommandLine.Spelling.Admits`); after an
equals sign every text can stand.

`JsonSieve.CommandLine.ofArguments_eq_filter_iff` says that the command lines that ask for a
run are the calls, and what they ask for. The two directions are apart: the arguments of an
item add it to what has been given (`JsonSieve.CommandLine.ofFilterArguments_item`), and
arguments that make sense are those of items
(`JsonSieve.CommandLine.exists_items_of_ofFilterArguments`). What items add up to in the end
does not depend on how they are written (`JsonSieve.CommandLine.foldlM_add_eq_some_iff`).
-/

namespace JsonSieve

namespace CommandLine

/-! ### Calls -/

/-- How a condition is written on a command line. -/
inductive Spelling where
  /-- `-c V` -/
  | short
  /-- `-cV` -/
  | shortAttached
  /-- `-c=V` -/
  | shortEquals
  /-- `--condition V` -/
  | long
  /-- `--condition=V` -/
  | longEquals

namespace Spelling

/-- The arguments for a condition. -/
def arguments (value : String) : Spelling → List String
  | short => ["-c", value]
  | shortAttached => ["-c" ++ value]
  | shortEquals => ["-c=" ++ value]
  | long => ["--condition", value]
  | longEquals => ["--condition=" ++ value]

/-- **Which conditions can be written that way**: an argument of its own does not look like an
option, and an attached text does not look like one of the other ways. -/
def Admits (value : String) : Spelling → Prop
  | short | long => value.toList.head? = some '-' → value = "-"
  | shortAttached => value ≠ "" ∧ value.toList.head? ≠ some '='
  | shortEquals | longEquals => True

end Spelling

/-- A part of a call. -/
inductive Item where
  /-- The flag to skip lines without an answer. -/
  | skipErrors
  /-- The condition. -/
  | condition (spelling : Spelling) (value : String) (admits : spelling.Admits value)

namespace Item

/-- The arguments for an item. -/
def arguments : Item → List String
  | skipErrors => ["--skip-err-lines"]
  | condition spelling value _ => spelling.arguments value

/-- The condition, if the item is one. -/
def condition? : Item → Option String
  | skipErrors => none
  | condition _ value _ => some value

/-- Whether the item is the flag. -/
def isFlag : Item → Bool
  | skipErrors => true
  | condition .. => false

end Item

/-- The arguments for items, and for the mark if there is one. -/
def itemArguments (items : List Item) (marked : Bool) : List String :=
  items.flatMap Item.arguments ++ if marked then ["--"] else []

/-- **A call of `filter`.** -/
structure Call where
  /-- What is given. -/
  items : List Item
  /-- Whether the mark follows. -/
  marked : Bool
  /-- The condition. -/
  condition : String
  /-- Whether the flag is given. -/
  skips : Bool
  /-- The condition is given once. -/
  condition_once : items.filterMap Item.condition? = [condition]
  /-- The flag is given once or not at all. -/
  flag_once : items.countP Item.isFlag = skips.toNat

/-- The command line of a call. -/
def Call.arguments (call : Call) : List String :=
  "filter" :: itemArguments call.items call.marked

/-! ### One argument -/

theorem attached_of_head?_ne {value : List Char} (h : value.head? ≠ some '=') :
    attached value = value := by
  unfold attached
  split
  · exact absurd rfl h
  · rfl

/-- An attached condition is read as it was written. -/
theorem ofChars_attached (spelling : Spelling) {value a : String} (admits : spelling.Admits value)
    (h : spelling.arguments value = [a]) : Argument.ofChars a.toList = .condition value := by
  cases spelling with
  | short | long => cases h
  | shortAttached =>
    cases h
    have hdrop : ('-' :: 'c' :: value.toList).drop "-c".length = value.toList := rfl
    simp [Argument.ofChars, hdrop, attached_of_head?_ne admits.2, admits.1]
  | shortEquals =>
    cases h
    have hdrop : ('-' :: 'c' :: '=' :: value.toList).drop "-c".length = '=' :: value.toList := rfl
    simp [Argument.ofChars, hdrop, attached]
  | longEquals =>
    cases h
    have hdrop : ('-' :: '-' :: 'c' :: 'o' :: 'n' :: 'd' :: 'i' :: 't' :: 'i' :: 'o' :: 'n' ::
        '=' :: value.toList).drop "--condition=".length = value.toList := rfl
    simp [Argument.ofChars, hdrop]

theorem eq_append_of_isPrefixOf {option a : String}
    (h : option.toList.isPrefixOf a.toList = true) :
    a = option ++ String.ofList (a.toList.drop option.length) := by
  obtain ⟨value, hvalue⟩ := List.isPrefixOf_iff_prefix.mp h
  apply String.toList_inj.mp
  rw [String.toList_append, String.toList_ofList, ← hvalue, ← String.length_toList, List.drop_left]

/-- What an argument must be to be read in this way. -/
def Argument.IsReadFrom (a : String) : Argument → Prop
  | .condition value => ∃ spelling : Spelling,
      spelling.Admits value ∧ spelling.arguments value = [a]
  | .conditionNext => a = "--condition" ∨ a = "-c"
  | .skipErrors => a = "--skip-err-lines"
  | .endOfOptions => a = "--"
  | .unknown => True

/-- **Arguments are read in no other way.** -/
theorem isReadFrom_of_ofChars {a : String} {argument : Argument}
    (h : Argument.ofChars a.toList = argument) : argument.IsReadFrom a := by
  subst h
  unfold Argument.ofChars
  split_ifs with hflag hmark hnext hlong hshort
  · exact String.toList_inj.mp hflag
  · exact String.toList_inj.mp hmark
  · exact hnext.imp String.toList_inj.mp String.toList_inj.mp
  · exact ⟨.longEquals, trivial, congrArg (fun b => [b]) (eq_append_of_isPrefixOf hlong).symm⟩
  · have ha := eq_append_of_isPrefixOf hshort
    generalize a.toList.drop "-c".length = value at ha
    by_cases heq : value.head? = some '='
    · -- the equals sign belongs to the option
      obtain ⟨value, rfl⟩ := List.head?_eq_some_iff.mp heq
      refine ⟨.shortEquals, trivial, congrArg (fun b => [b]) ?_⟩
      rw [ha, attached]
      exact String.toList_inj.mp (by simp)
    · rw [attached_of_head?_ne heq]
      refine ⟨.shortAttached, ⟨?_, by rwa [String.toList_ofList]⟩, congrArg (fun b => [b]) ha.symm⟩
      intro hempty
      rw [hempty] at ha
      exact hnext (Or.inr (congrArg String.toList (ha.trans String.append_empty)))
  · trivial

/-! ### One item -/

theorem isValue_iff (value : String) :
    isValue value.toList = true ↔ (value.toList.head? = some '-' → value = "-") := by
  have hdash : value = "-" ↔ value.toList = ['-'] := String.toList_inj.symm
  rw [hdash, Decidable.imp_iff_not_or]
  simp [isValue]

namespace Given

/-- What has been given with a condition, unless there is one already. -/
def addCondition (given : Given) (value : String) : Option Given :=
  if given.condition.isSome then none else some { given with condition := some value }

/-- What has been given with an item, unless it cannot be given again. -/
def add (given : Given) : Item → Option Given
  | .skipErrors => if given.skipErrors then none else some { given with skipErrors := true }
  | .condition _ value _ => given.addCondition value

end Given

/-- What the rest of the arguments asks for after something that could be given or could not. -/
def resume (rest : List String) : Option Given → Request
  | none => .misuse
  | some given => ofFilterArguments given rest

theorem ofFilterArguments_next {option value : String}
    (hoption : Argument.ofChars option.toList = .conditionNext)
    (hvalue : isValue value.toList = true) (given : Given) (rest : List String) :
    ofFilterArguments given (option :: value :: rest) =
      resume rest (given.addCondition value) := by
  rw [ofFilterArguments.eq_def]
  simp only [hoption, hvalue, Given.addCondition]
  cases given.condition <;> rfl

theorem ofFilterArguments_attached {a value : String}
    (ha : Argument.ofChars a.toList = .condition value) (given : Given) (rest : List String) :
    ofFilterArguments given (a :: rest) = resume rest (given.addCondition value) := by
  rw [ofFilterArguments.eq_def]
  simp only [ha, Given.addCondition]
  cases given.condition <;> rfl

/-- **The arguments of an item add it** to what has been given. -/
theorem ofFilterArguments_item (given : Given) (item : Item) (rest : List String) :
    ofFilterArguments given (item.arguments ++ rest) = resume rest (given.add item) := by
  cases item with
  | skipErrors =>
    have hflag : Argument.ofChars "--skip-err-lines".toList = .skipErrors := by decide
    rw [Item.arguments, List.singleton_append, ofFilterArguments.eq_def]
    simp only [hflag, Given.add]
    cases given.skipErrors <;> rfl
  | condition spelling value admits =>
    rw [Item.arguments]
    cases spelling with
    | short => exact ofFilterArguments_next (by decide) ((isValue_iff value).mpr admits) given rest
    | long => exact ofFilterArguments_next (by decide) ((isValue_iff value).mpr admits) given rest
    | shortAttached => exact ofFilterArguments_attached (ofChars_attached _ admits rfl) given rest
    | shortEquals => exact ofFilterArguments_attached (ofChars_attached _ admits rfl) given rest
    | longEquals => exact ofFilterArguments_attached (ofChars_attached _ admits rfl) given rest

/-! ### All items -/

theorem itemArguments_cons (item : Item) (items : List Item) (marked : Bool) :
    itemArguments (item :: items) marked = item.arguments ++ itemArguments items marked :=
  List.append_assoc ..

/-- **The arguments of items add them all** to what has been given. -/
theorem ofFilterArguments_items (given : Given) (items : List Item) (marked : Bool) :
    ofFilterArguments given (itemArguments items marked) =
      match items.foldlM Given.add given with
      | none => .misuse
      | some given => given.request := by
  induction items generalizing given with
  | nil =>
    cases marked with
    | false => rfl
    | true =>
      have hmark : Argument.ofChars "--".toList = .endOfOptions := by decide
      rw [itemArguments, List.flatMap_nil, List.nil_append, if_pos rfl, ofFilterArguments.eq_def]
      simp only [hmark]
      rfl
  | cons item items ih =>
    rw [itemArguments_cons, ofFilterArguments_item, List.foldlM_cons]
    cases given.add item with
    | none => rfl
    | some given => exact ih given

theorem exists_items_append (item : Item) {rest : List String}
    (h : ∃ items marked, rest = itemArguments items marked) :
    ∃ items marked, item.arguments ++ rest = itemArguments items marked := by
  obtain ⟨items, marked, rfl⟩ := h
  exact ⟨item :: items, marked, (itemArguments_cons item items marked).symm⟩

/-- Arguments that make sense are those of items, with the mark or without it. -/
theorem exists_items_of_ofFilterArguments (given : Given) (arguments : List String)
    (h : ofFilterArguments given arguments ≠ .misuse) :
    ∃ items marked, arguments = itemArguments items marked := by
  fun_induction ofFilterArguments given arguments with
  | case1 => exact ⟨[], false, rfl⟩
  | case3 given a rest value ha hgiven ih =>
    -- the condition is attached to its option, or else, further down, it is the next argument
    obtain ⟨spelling, admits, harguments⟩ := isReadFrom_of_ofChars ha
    have := exists_items_append (.condition spelling value admits) (ih h)
    rwa [Item.arguments, harguments] at this
  | case6 given a ha value rest hgiven ih =>
    have hvalue : value.toList.head? = some '-' → value = "-" := by
      rw [← isValue_iff]
      simpa using (not_or.mp (mt (Bool.or_eq_true ..).mpr hgiven)).2
    obtain rfl | rfl := isReadFrom_of_ofChars ha
    · exact exists_items_append (.condition .long value hvalue) (ih h)
    · exact exists_items_append (.condition .short value hvalue) (ih h)
  | case8 given a rest ha hgiven ih =>
    obtain rfl := isReadFrom_of_ofChars ha
    exact exists_items_append .skipErrors (ih h)
  | case9 given a rest ha hrest =>
    obtain rfl := isReadFrom_of_ofChars ha
    exact ⟨[], true, congrArg (List.cons _) (List.isEmpty_iff.mp hrest)⟩
  -- all other ways to read an argument end the reading
  | case2 | case4 | case5 | case7 | case10 | case11 => exact absurd rfl h

/-- **Items can be given together** if there is at most one condition and at most one flag
among them and what was given before. -/
theorem foldlM_add_eq_some_iff (given total : Given) (items : List Item) :
    items.foldlM Given.add given = some total ↔
      given.condition.toList ++ items.filterMap Item.condition? = total.condition.toList ∧
        given.skipErrors.toNat + items.countP Item.isFlag = total.skipErrors.toNat := by
  induction items generalizing given with
  | nil =>
    rcases given with ⟨_ | c, _ | _⟩ <;> rcases total with ⟨_ | c', _ | _⟩ <;> simp
  | cons item items ih =>
    rw [List.foldlM_cons]
    cases item with
    | skipErrors =>
      rw [List.filterMap_cons_none rfl, List.countP_cons_of_pos rfl]
      rcases given with ⟨c, _ | _⟩
      · refine (ih ⟨c, true⟩).trans ?_
        simp [Nat.add_comm]
      · -- two flags are more than a total can have
        have hle := total.skipErrors.toNat_le
        refine iff_of_false nofun fun h => ?_
        simp only [Bool.toNat_true] at h
        omega
    | condition spelling value admits =>
      have hitem : (Item.condition spelling value admits).condition? = some value := rfl
      rw [List.filterMap_cons_some hitem, List.countP_cons_of_neg Bool.false_ne_true]
      rcases given with ⟨_ | c, skipErrors⟩
      · exact ih ⟨some value, skipErrors⟩
      · -- and so are two conditions
        refine iff_of_false nofun fun h => ?_
        rcases total with ⟨_ | c', skipErrors'⟩ <;> simp at h

/-! ### All command lines -/

theorem request_eq_filter_iff (given : Given) (condition : String) (skips : Bool) :
    given.request = .filter condition skips ↔ given = ⟨some condition, skips⟩ := by
  rcases given with ⟨_ | c, skipErrors⟩ <;> simp [Given.request]

/-- **The command lines that ask for a run are the calls**, and what a call asks for is its
condition, and its flag if that is given. -/
theorem ofArguments_eq_filter_iff (arguments : List String) (condition : String) (skips : Bool) :
    Request.ofArguments arguments = .filter condition skips ↔
      ∃ call : Call, call.arguments = arguments ∧ call.condition = condition ∧
        call.skips = skips := by
  constructor
  · intro h
    obtain _ | ⟨command, rest⟩ := arguments
    · cases h
    rw [Request.ofArguments] at h
    split_ifs at h with hcommand
    have hsense : ofFilterArguments ⟨none, false⟩ rest ≠ .misuse := by
      rw [h]
      nofun
    obtain ⟨items, marked, rfl⟩ := exists_items_of_ofFilterArguments _ _ hsense
    rw [ofFilterArguments_items] at h
    cases htotal : items.foldlM Given.add ⟨none, false⟩ with
    | none =>
      rw [htotal] at h
      cases h
    | some total =>
      rw [htotal] at h
      obtain rfl := (request_eq_filter_iff total condition skips).mp h
      obtain ⟨hcondition, hflag⟩ := (foldlM_add_eq_some_iff _ _ items).mp htotal
      exact ⟨⟨items, marked, condition, skips, hcondition, (Nat.zero_add _).symm.trans hflag⟩,
        congrArg (fun command => command :: _) hcommand.symm, rfl, rfl⟩
  · rintro ⟨call, rfl, rfl, rfl⟩
    have htotal := (foldlM_add_eq_some_iff ⟨none, false⟩ ⟨some call.condition, call.skips⟩
      call.items).mpr ⟨call.condition_once, (Nat.zero_add _).trans call.flag_once⟩
    rw [Call.arguments, Request.ofArguments, if_pos rfl, ofFilterArguments_items, htotal]
    rfl

end CommandLine

end JsonSieve
