import Phrasebook.Proofs.DataSet.Reachable
import Phrasebook.Proofs.Locale.Catalog

/-!
# Lists of edits

A list of edits is refused as a whole when one of its edits names no locale, or applied edit by
edit. Each of the four tables can be followed on its own: an edit goes to one map of the texts or of
the machine translations, where the last text of a key counts, and new maps and new keys come behind
the others. So the result is known entry by entry from the edits that address an entry.
-/

namespace Phrasebook

namespace TextEdit

/-- The locale that an edit addresses, in the spelling of the catalog. -/
def locale? (edit : TextEdit) : Option Text :=
  if edit.machine then none else Locale.canonical? edit.code

/-- The base locale that an edit of a machine translation addresses. -/
def base? (edit : TextEdit) : Option Text :=
  if edit.machine then some (DataSet.machineTarget edit.code) else none

/-- Whether an edit is refused: it sets no machine translation, and its code is of no locale. -/
def isRefused (edit : TextEdit) : Bool :=
  !edit.machine && !Locale.isKnown edit.code

variable (target? : TextEdit → Option Text)

/-- Whether an edit addresses a locale or a base locale; `target?` tells which one it goes to. -/
def isFor (code : Text) (edit : TextEdit) : Bool :=
  (target? edit).any fun target => Text.fold target = Text.fold code

/-- What edits set in a locale or a base locale, one after another. -/
def assigned (edits : List TextEdit) (code : Text) : List (Text × Text) :=
  (edits.filter (isFor target? code)).map fun edit => (edit.key, edit.value)

/-- The text of the last edit that addresses a key in a locale or a base locale. -/
def last? (edits : List TextEdit) (key code : Text) : Option Text :=
  (edits.filter fun edit =>
    isFor target? code edit && Text.fold edit.key = Text.fold key).getLast?.map (·.value)

variable {target?}

/-- The last edit that addresses a key is the last of those that set it. -/
theorem last?_eq (edits : List TextEdit) (key code : Text) :
    last? target? edits key code =
      ((assigned target? edits code).filter fun e => Text.fold e.1 = Text.fold key).getLast?.map
        (·.2) := by
  have hboth : (edits.filter fun edit =>
      isFor target? code edit && Text.fold edit.key = Text.fold key) =
        (edits.filter (isFor target? code)).filter fun edit =>
          Text.fold edit.key = Text.fold key := by
    rw [List.filter_filter]
    exact List.filter_congr fun edit _ => Bool.and_comm _ _
  rw [last?, hboth, assigned, List.filter_map, List.getLast?_map, Option.map_map]
  rfl

/-- An edit in front of others sets its key first, when it addresses the locale. -/
theorem assigned_cons (edit : TextEdit) (edits : List TextEdit) (code : Text) :
    assigned target? (edit :: edits) code =
      if isFor target? code edit then (edit.key, edit.value) :: assigned target? edits code
      else assigned target? edits code := by
  unfold assigned
  rw [List.filter_cons]
  split <;> rfl

end TextEdit

namespace DataSet

open TextEdit (locale? base? isFor assigned last?)

variable {target? : TextEdit → Option Text} {d : DataSet} {edit : TextEdit} {edits : List TextEdit}
  {code : Text}

/-! ### One table -/

/-- A map, which may be missing, with pairs set in it one after another. It is made when there are
some. -/
def setPairs (texts? : Option (KeyMap Text)) : List (Text × Text) → Option (KeyMap Text)
  | [] => texts?
  | pair :: pairs => some ((texts?.getD ∅).insertAll (pair :: pairs))

/-- A pair in front of others is set first. -/
theorem setPairs_cons (texts? : Option (KeyMap Text)) (pair : Text × Text)
    (pairs : List (Text × Text)) :
    setPairs texts? (pair :: pairs) =
      setPairs (some ((texts?.getD ∅).insert pair.1 pair.2)) pairs := by
  cases pairs <;> rfl

/-- Of the pairs that are set, the last one with a key counts. -/
theorem bind_setPairs (texts? : Option (KeyMap Text)) (pairs : List (Text × Text)) (key : Text) :
    (setPairs texts? pairs).bind (·.get? key) =
      ((pairs.filter fun e => Text.fold e.1 = Text.fold key).getLast?.map (·.2)).or
        (texts?.bind (·.get? key)) := by
  cases pairs with
  | nil => simp [setPairs]
  | cons pair pairs =>
    rw [setPairs, Option.bind_some, Lexicon.get?_insertAll]
    cases texts? <;> simp

/-- A table after an edit that goes to one of its maps; a missing map is made. -/
def editTable (target? : TextEdit → Option Text) (table : KeyMap (KeyMap Text)) (edit : TextEdit) :
    KeyMap (KeyMap Text) :=
  match target? edit with
  | none => table
  | some code => table.insert code (((table.get? code).getD ∅).insert edit.key edit.value)

/-- An edit changes the map that it addresses. -/
theorem get?_editTable (table : KeyMap (KeyMap Text)) (edit : TextEdit) (code : Text) :
    (editTable target? table edit).get? code =
      if isFor target? code edit then
        some (((table.get? code).getD ∅).insert edit.key edit.value)
      else table.get? code := by
  unfold editTable isFor
  cases target? edit with
  | none => rfl
  | some target =>
    rw [Option.any_some, Lexicon.get?_insert]
    by_cases h : Text.fold target = Text.fold code
    · simp [h, Lexicon.get?_congr table h]
    · simp [h]

/-- Edits set their pairs in the maps that they address. -/
theorem get?_foldl_editTable (table : KeyMap (KeyMap Text)) (edits : List TextEdit) (code : Text) :
    (edits.foldl (editTable target?) table).get? code =
      setPairs (table.get? code) (assigned target? edits code) := by
  induction edits generalizing table with
  | nil => rfl
  | cons edit edits ih =>
    rw [List.foldl_cons, ih, get?_editTable, TextEdit.assigned_cons]
    split
    · rw [setPairs_cons]
    · rfl

/-- A table that no edit goes to stays as it is. -/
theorem foldl_editTable_of_none (table : KeyMap (KeyMap Text)) {edits : List TextEdit}
    (h : ∀ edit ∈ edits, target? edit = none) : edits.foldl (editTable target?) table = table := by
  induction edits generalizing table with
  | nil => rfl
  | cons edit edits ih =>
    rw [List.forall_mem_cons] at h
    rw [List.foldl_cons, ih _ h.2, editTable, h.1]

/-- Maps that edits make come behind the others. -/
theorem keySet_foldl_editTable (table : KeyMap (KeyMap Text)) (edits : List TextEdit) :
    (edits.foldl (editTable target?) table).keySet =
      table.keySet.insertAll (edits.filterMap target?) := by
  induction edits generalizing table with
  | nil => rfl
  | cons edit edits ih =>
    rw [List.foldl_cons, ih, editTable]
    cases htarget : target? edit with
    | none => rw [List.filterMap_cons_none htarget]
    | some target =>
      rw [List.filterMap_cons_some htarget]
      dsimp only
      rw [Lexicon.keySet_insert]
      rfl

/-! ### All tables -/

/-- The data set after an edit that is not refused, table by table. -/
def edited (d : DataSet) (edit : TextEdit) : DataSet where
  texts := editTable locale? d.texts edit
  machine := editTable base? d.machine edit
  duplicates :=
    match edit.locale? with
    | none => d.duplicates
    | some code => if d.texts.contains code then d.duplicates else d.duplicates.insert code ∅
  known := if edit.machine then d.known else d.known.insert edit.key

/-- An edit is refused, or it changes each of the tables. -/
theorem applyEdit_eq (d : DataSet) (edit : TextEdit) :
    d.applyEdit edit =
      if edit.isRefused then .error (.invalidLocale edit.code none) else .ok (d.edited edit) := by
  unfold applyEdit TextEdit.isRefused edited editTable TextEdit.locale? TextEdit.base?
  cases hmachine : edit.machine with
  | true => rfl
  | false =>
    rw [Locale.isKnown_eq_isSome]
    cases Locale.canonical? edit.code <;> rfl

/-- The first edit that is refused refuses all of them; else they are applied one after another. -/
theorem applyEdits_eq (d : DataSet) (edits : List TextEdit) :
    d.applyEdits edits =
      match edits.find? (·.isRefused) with
      | some edit => .error (.invalidLocale edit.code none)
      | none => .ok (edits.foldl edited d) := by
  rw [applyEdits, copy_eq]
  induction edits generalizing d with
  | nil => rfl
  | cons edit edits ih =>
    rw [List.foldlM_cons, applyEdit_eq]
    cases hrefused : edit.isRefused with
    | true =>
      rw [List.find?_cons_of_pos hrefused]
      rfl
    | false =>
      rw [List.find?_cons_of_neg (by simp [hrefused])]
      exact ih (d.edited edit)

/-- Edits that are not refused are applied one after another. -/
theorem applyEdits_of_accepted (d : DataSet) (h : ∀ edit ∈ edits, edit.isRefused = false) :
    d.applyEdits edits = .ok (edits.foldl edited d) := by
  have hnone : edits.find? (·.isRefused) = none :=
    List.find?_eq_none.2 fun edit hedit => by simp [h edit hedit]
  rw [applyEdits_eq, hnone]

/-- The tables of the texts and of the machine translations go their own ways. -/
theorem foldl_edited_tables (d : DataSet) (edits : List TextEdit) :
    (edits.foldl edited d).texts = edits.foldl (editTable locale?) d.texts ∧
      (edits.foldl edited d).machine = edits.foldl (editTable base?) d.machine := by
  induction edits generalizing d with
  | nil => exact ⟨rfl, rfl⟩
  | cons edit edits ih => exact ih (d.edited edit)

/-- The keys of the texts become known. -/
theorem known_foldl_edited (d : DataSet) (edits : List TextEdit) :
    (edits.foldl edited d).known =
      d.known.insertAll ((edits.filter fun edit => !edit.machine).map (·.key)) := by
  induction edits generalizing d with
  | nil => rfl
  | cons edit edits ih =>
    rw [List.foldl_cons, ih, edited, List.filter_cons]
    cases edit.machine <;> rfl

/-- A locale that an edit addresses is loaded afterwards, like those that were loaded. -/
theorem contains_texts_edited (d : DataSet) (edit : TextEdit) (code : Text) :
    (d.edited edit).texts.contains code =
      (isFor locale? code edit || d.texts.contains code) := by
  rw [Lexicon.contains_eq_isSome, edited, get?_editTable, Lexicon.contains_eq_isSome]
  cases isFor locale? code edit <;> rfl

/-- An edit of a locale that is not loaded sets its duplicates to none. -/
theorem get?_duplicates_edited (d : DataSet) (edit : TextEdit) (code : Text) :
    (d.edited edit).duplicates.get? code =
      if isFor locale? code edit && !d.texts.contains code then some ∅
      else d.duplicates.get? code := by
  unfold edited isFor
  cases edit.locale? with
  | none => rfl
  | some target =>
    dsimp only
    rw [Option.any_some]
    by_cases h : Text.fold target = Text.fold code
    · rw [Lexicon.contains_eq_isSome d.texts target, Lexicon.get?_congr d.texts h,
        ← Lexicon.contains_eq_isSome]
      cases d.texts.contains code <;> simp [h, Lexicon.get?_insert]
    · split <;> simp [h, Lexicon.get?_insert]

/-- The duplicates of a loaded locale stay, and so do those of a locale that no edit addresses. A
new locale has none. -/
theorem get?_duplicates_foldl_edited (d : DataSet) (edits : List TextEdit) (code : Text) :
    (edits.foldl edited d).duplicates.get? code =
      if d.texts.contains code || (assigned locale? edits code).isEmpty then d.duplicates.get? code
      else some ∅ := by
  induction edits generalizing d with
  | nil => simp [assigned]
  | cons edit edits ih =>
    rw [List.foldl_cons, ih, contains_texts_edited, get?_duplicates_edited, TextEdit.assigned_cons]
    cases isFor locale? code edit <;> cases d.texts.contains code <;> simp

/-- What a data set is after edits. -/
structure IsEdited (d : DataSet) (edits : List TextEdit) (d' : DataSet) : Prop where
  /-- A key has in a locale the text of the last edit that addresses it there, or the text that it
  had. -/
  text (key code : Text) : d'.text? key code = (last? locale? edits key code).or (d.text? key code)
  /-- The same is true of the machine translations of a base locale. -/
  machineText (key base : Text) :
    d'.machineText? key base = (last? base? edits key base).or (d.machineText? key base)
  /-- The map of a locale keeps its entries with their spelling and in their order. New keys come
  behind them, and a locale that no edit addresses is as it was. -/
  locale (code : Text) :
    d'.texts.get? code = setPairs (d.texts.get? code) (assigned locale? edits code)
  /-- The same is true of a base locale. -/
  base (base : Text) :
    d'.machine.get? base = setPairs (d.machine.get? base) (assigned base? edits base)
  /-- New locales come behind the others. -/
  locales : d'.texts.keySet = d.texts.keySet.insertAll (edits.filterMap locale?)
  /-- New base locales come behind the others. -/
  bases : d'.machine.keySet = d.machine.keySet.insertAll (edits.filterMap base?)
  /-- The duplicates of loaded locales, and of those that no edit addresses, are as they were. -/
  duplicates (code : Text) :
    d'.duplicates.get? code =
      if d.texts.contains code || (assigned locale? edits code).isEmpty then d.duplicates.get? code
      else some ∅
  /-- The keys of the edits that set no machine translation become known, and no others. -/
  known : d'.known = d.known.insertAll ((edits.filter fun edit => !edit.machine).map (·.key))

/-- Edits that are applied one after another make such a data set. -/
theorem isEdited_foldl (d : DataSet) (edits : List TextEdit) :
    IsEdited d edits (edits.foldl edited d) := by
  obtain ⟨htexts, hmachine⟩ := foldl_edited_tables d edits
  have hlocale (code : Text) : (edits.foldl edited d).texts.get? code =
      setPairs (d.texts.get? code) (assigned locale? edits code) := by
    rw [htexts, get?_foldl_editTable]
  have hbase (base : Text) : (edits.foldl edited d).machine.get? base =
      setPairs (d.machine.get? base) (assigned base? edits base) := by
    rw [hmachine, get?_foldl_editTable]
  exact {
    text := fun key code => by rw [text?, hlocale, bind_setPairs, TextEdit.last?_eq, text?]
    machineText := fun key base => by
      rw [machineText?, hbase, bind_setPairs, TextEdit.last?_eq, machineText?]
    locale := hlocale
    base := hbase
    locales := htexts ▸ keySet_foldl_editTable d.texts edits
    bases := hmachine ▸ keySet_foldl_editTable d.machine edits
    duplicates := get?_duplicates_foldl_edited d edits
    known := known_foldl_edited d edits }

/-- Lists of edits act as a whole on every data set. The copy that they work on is the data set.
They are refused exactly when some edit that sets no machine translation names no locale, and the
first such edit is named. Otherwise two lists in a row do what one does after the other, and what they
do is known of every entry. -/
theorem applyEdits_acts (d : DataSet) (first second : List TextEdit) :
    d.copy = d ∧
      (∀ f, d.applyEdits (first ++ second) = .error f ↔
        ∃ edit, (first ++ second).find? (·.isRefused) = some edit ∧
          f = .invalidLocale edit.code none) ∧
      ((∀ edit ∈ first ++ second, edit.isRefused = false) →
        ∃ between after, d.applyEdits first = .ok between ∧ between.applyEdits second = .ok after ∧
          d.applyEdits (first ++ second) = .ok after ∧ IsEdited d (first ++ second) after) := by
  refine ⟨copy_eq d, fun f => ?_, fun haccepted => ?_⟩
  · rw [applyEdits_eq]
    cases (first ++ second).find? (·.isRefused) with
    | none => simp
    | some edit => simp [eq_comm]
  · have hall : ∀ (d : DataSet), ∀ edits ⊆ first ++ second,
        d.applyEdits edits = .ok (edits.foldl edited d) := fun d edits hedits =>
      applyEdits_of_accepted d fun edit hedit => haccepted edit (hedits hedit)
    have hafter := isEdited_foldl d (first ++ second)
    rw [List.foldl_append] at hafter
    refine ⟨_, _, hall d first (List.subset_append_left _ _),
      hall _ second (List.subset_append_right _ _), ?_, hafter⟩
    rw [hall d _ (List.Subset.refl _), List.foldl_append]

/-- A text is set twice under two spellings, a new locale is made, and a machine translation goes to
a code of no locale. -/
theorem applyEdits_acts_of_spellings :
    let texts : KeyMap Text := .ofList [("Axe".toList, "a".toList), ("Cap".toList, "b".toList)]
    let d := empty.addLocale "deDE".toList texts ∅
    let first : List TextEdit := [⟨"cap".toList, "DEDE".toList, "x".toList, false⟩,
      ⟨"Cap".toList, "xx".toList, "m".toList, true⟩]
    let second : List TextEdit := [⟨"Bow".toList, "frfr".toList, "y".toList, false⟩,
      ⟨"CAP".toList, "dede".toList, "z".toList, false⟩]
    (∀ edit ∈ first ++ second, edit.isRefused = false) ∧
      ∃ after, d.applyEdits (first ++ second) = .ok after ∧
        after.text? "cap".toList "deDE".toList = some "z".toList ∧
        after.text? "axe".toList "deDE".toList = some "a".toList ∧
        after.machineText? "cap".toList "XX".toList = some "m".toList ∧
        after.texts.keys = ["deDE".toList, "frFR".toList] ∧
        after.known.keys = ["Axe".toList, "Cap".toList, "Bow".toList] := by
  intro texts d first second
  have haccepted : ∀ edit ∈ first ++ second, edit.isRefused = false := by decide +kernel
  obtain ⟨-, -, hall⟩ := applyEdits_acts d first second
  obtain ⟨-, after, -, -, happlied, hafter⟩ := hall haccepted
  refine ⟨haccepted, after, happlied, ?_, ?_, ?_, ?_, ?_⟩
  · rw [hafter.text]
    decide +kernel
  · rw [hafter.text]
    decide +kernel
  · rw [hafter.machineText]
    decide +kernel
  · refine (congrArg KeySet.keys hafter.locales).trans ?_
    decide +kernel
  · rw [hafter.known]
    decide +kernel

end DataSet

end Phrasebook
