import Phrasebook.Proofs.DataSet.Edits

/-!
# Promoting machine translations

A locale has a gap where a key has a machine translation that is not blank and no text, or a blank
one. Promotion makes an edit for each gap, in key order, and the edits fill all gaps at once.
Nothing else changes, and there is nothing left to promote.
-/

namespace Phrasebook

/-- Adding one key several times adds it once. -/
theorem KeySet.insertAll_replicate (s : KeySet) (n : Nat) (key : Text) :
    s.insertAll (List.replicate n key) = if n = 0 then s else s.insert key := by
  induction n generalizing s with
  | zero => rfl
  | succ n ih =>
    have hagain : (s.insert key).insert key = s.insert key := by
      rw [insert, dif_pos (by simp [contains_insert])]
    rw [List.replicate_succ, insertAll, List.foldl_cons]
    refine (ih (s.insert key)).trans ?_
    rw [hagain, ite_self, if_neg n.succ_ne_zero]

/-- The keys of a map come first, in their order and in their spelling, when values are set. -/
theorem Lexicon.prefix_keys_insertAll {V : Type} (m : KeyMap V) (pairs : List (Text × V)) :
    m.keys <+: (m.insertAll pairs).keys := by
  induction pairs generalizing m with
  | nil => exact List.prefix_rfl
  | cons pair pairs ih =>
    have hinsert : m.keys <+: (m.insert pair.1 pair.2).keys := by
      rw [keys_insert]
      split_ifs
      · exact List.prefix_rfl
      · exact List.prefix_append _ _
    exact hinsert.trans (ih (m.insert pair.1 pair.2))

namespace DataSet

open TextEdit (locale? base? isFor assigned last?)

variable {d after : DataSet} {code other base key text : Text}

/-- The texts of a locale are found under every spelling of a key. -/
theorem text?_congr {key' : Text} (d : DataSet) (code : Text) (h : Text.fold key = Text.fold key') :
    d.text? key code = d.text? key' code := by
  unfold text?
  cases d.texts.get? code with
  | none => rfl
  | some texts => exact texts.get?_congr h

/-! ### Gaps -/

/-- The machine translations of a base locale that fill a gap of a locale. -/
def gaps (d : DataSet) (code base : Text) : List (Text × Text) :=
  (d.machineEntries base).filter fun e =>
    isUntranslated (d.text? e.1 code) && !Text.isBlankText e.2

/-- The gaps in key order. -/
def sortedGaps (d : DataSet) (code base : Text) : List (Text × Text) :=
  (d.gaps code base).mergeSort fun a b => keyLe a.1 b.1

/-- The edit that copies a machine translation into a locale. -/
def promotion (code : Text) (e : Text × Text) : TextEdit :=
  ⟨e.1, code, e.2, false⟩

/-- A gap is an entry of the base locale that is not blank, where the locale has no text. -/
theorem mem_sortedGaps {e : Text × Text} : e ∈ d.sortedGaps code base ↔
    e ∈ d.machineEntries base ∧ isUntranslated (d.text? e.1 code) = true ∧
      Text.isBlankText e.2 = false := by
  rw [sortedGaps, (List.mergeSort_perm _ _).mem_iff, gaps, List.mem_filter, Bool.and_eq_true,
    Bool.not_eq_true']

/-- Gaps have different keys. -/
theorem nodup_sortedGaps (d : DataSet) (code base : Text) :
    ((d.sortedGaps code base).map fun e => Text.fold e.1).Nodup :=
  ((List.mergeSort_perm _ _).map _).nodup_iff.2
    ((List.filter_sublist.map _).nodup (d.nodup_machineEntries base))

/-- An entry of a map is promoted unless it is blank. -/
theorem promotion?_of_mem {machine : KeyMap Text} {e : Text × Text} (he : e ∈ machine.entries) :
    promotion? machine code e.1 =
      if !Text.isBlankText e.2 then some (promotion code e) else none := by
  have hfound : machine.find? e.1 = some e := Lexicon.find?_eq_some_iff.2 ⟨he, rfl⟩
  rw [promotion?, hfound]
  cases hblank : Text.isBlankText e.2 <;> simp [promotion, hblank]

/-- Entries of a map are promoted one by one, except those that are blank. -/
theorem filterMap_promotion? {machine : KeyMap Text} {entries : List (Text × Text)}
    (h : entries ⊆ machine.entries) :
    (entries.map (·.1)).filterMap (promotion? machine code) =
      (entries.filter fun e => !Text.isBlankText e.2).map (promotion code) := by
  rw [List.filterMap_map, ← List.filterMap_eq_map, List.filterMap_filter]
  exact List.filterMap_congr fun e he => promotion?_of_mem (h he)

/-- The edits of a promotion copy the gaps, in key order. -/
theorem promotions_eq (hbase : Locale.base? code = some base) :
    d.promotions code none = .ok ((d.sortedGaps code base).map (promotion code)) := by
  unfold promotions sortedGaps gaps machineEntries
  rw [hbase]
  dsimp only
  cases d.machine.get? base with
  | none => simp
  | some machine =>
    let untranslated := machine.entries.filter fun e => isUntranslated (d.text? e.1 code)
    have hkeys : (untranslated.map (·.1)).Nodup :=
      .of_map Text.fold ((machine.filter _).nodup_keys)
    have hsorted : sortKeys (d.promotable machine code none) =
        (untranslated.mergeSort fun a b => keyLe a.1 b.1).map (·.1) := by
      rw [promotable, Lexicon.keys, List.filter_map]
      exact sortKeys_map_fst untranslated
    have hsubset : (untranslated.mergeSort fun a b => keyLe a.1 b.1) ⊆ machine.entries :=
      fun e he => (List.mem_filter.1 ((List.mergeSort_perm _ _).mem_iff.1 he)).1
    dsimp only
    rw [hsorted, filterMap_promotion? hsubset, filter_mergeSort_keyLe hkeys, List.filter_filter]
    simp only [Bool.and_comm, Option.map_some, Option.getD_some]

/-! ### What the edits address -/

section Addressed

variable {canonical : Text} (hcode : Locale.canonical? code = some canonical)

include hcode

/-- The edits of a promotion are accepted. -/
theorem isRefused_of_mem_promotions (entries : List (Text × Text)) :
    ∀ edit ∈ entries.map (promotion code), edit.isRefused = false := by
  refine List.forall_mem_map.2 fun e _ => ?_
  rw [TextEdit.isRefused, promotion, Locale.isKnown_eq_isSome, hcode]
  rfl

/-- The edits of a promotion set the gaps in their locale, and nothing elsewhere. -/
theorem assigned_promotions (entries : List (Text × Text)) (other : Text) :
    assigned locale? (entries.map (promotion code)) other =
      if Text.fold other = Text.fold code then entries else [] := by
  have hfor : isFor locale? other ∘ promotion code =
      fun _ => decide (Text.fold other = Text.fold code) := by
    funext e
    simp [isFor, locale?, promotion, hcode, Locale.fold_of_canonical? hcode, eq_comm]
  have hpair : (fun edit => (edit.key, edit.value)) ∘ promotion code = id := rfl
  rw [assigned, List.filter_map, hfor, List.map_map, hpair, List.map_id]
  split <;> simp [*]

/-- The edits of a promotion add their locale behind the others when it was not loaded. -/
theorem codes_foldl_promotion (d : DataSet) (entries : List (Text × Text)) :
    ((entries.map (promotion code)).foldl edited d).codes =
      if entries.isEmpty || d.texts.contains code then d.codes else d.codes ++ [canonical] := by
  have hlocales : (entries.map (promotion code)).filterMap locale? =
      List.replicate entries.length canonical := by
    have hlocale : locale? ∘ promotion code = fun _ => some canonical := funext fun _ => hcode
    rw [List.filterMap_map, hlocale, List.filterMap_eq_map', List.map_const']
  have hloaded : d.texts.keySet.contains canonical = d.texts.contains code := by
    rw [Bool.eq_iff_iff, KeySet.contains_iff, Lexicon.contains_iff,
      Locale.fold_of_canonical? hcode]
    rfl
  have hkeys := congrArg KeySet.keys (isEdited_foldl d (entries.map (promotion code))).locales
  rw [hlocales, KeySet.insertAll_replicate] at hkeys
  refine hkeys.trans ?_
  cases entries with
  | nil => rfl
  | cons e entries =>
    rw [if_neg (by simp), KeySet.keys_insert, hloaded]
    rfl

end Addressed

/-! ### The promoted data set -/

/-- What a data set is after the edits of a promotion from a base locale into a locale. -/
structure IsPromoted (d : DataSet) (code base : Text) (edits : List TextEdit) (after : DataSet) :
    Prop where
  /-- There is one edit for each machine translation that is not blank and whose key has no text in
  the locale, or a blank one. It copies the spelling and the translation. -/
  mem_edits (edit : TextEdit) :
    edit ∈ edits ↔ ∃ e ∈ d.machineEntries base, Text.isBlankText e.2 = false ∧
      isUntranslated (d.text? e.1 code) = true ∧ edit = ⟨e.1, code, e.2, false⟩
  /-- No key is edited twice, under whatever spellings. -/
  once : (edits.map fun edit => Text.fold edit.key).Nodup
  /-- The edits are in key order. -/
  sorted : edits.map (·.key) = sortKeys (edits.map (·.key))
  /-- A key of the locale has its machine translation where it had no text, or a blank one, and the
  translation is not blank. Otherwise it has the text that it had. -/
  text (key : Text) :
    after.text? key code =
      if isUntranslated (d.text? key code) && !isUntranslated (d.machineText? key base) then
        d.machineText? key base
      else d.text? key code
  /-- The keys that the locale had come first, in their order and in their spelling. -/
  keys :
    ((d.texts.get? code).map (·.keys)).getD [] <+: ((after.texts.get? code).map (·.keys)).getD []
  /-- The other locales are as they were. -/
  other (other : Text) (h : Text.fold other ≠ Text.fold code) :
    after.texts.get? other = d.texts.get? other
  /-- The locale is added behind the others when it was not loaded. -/
  codes :
    after.codes =
      if edits.isEmpty || d.texts.contains code then d.codes
      else d.codes ++ (Locale.canonical? code).toList
  /-- The machine translations are as they were. -/
  machine : after.machine = d.machine
  /-- The duplicates are as they were, those of each locale and those that are listed for all. The
  tables fit together in every data set that is reached from the empty one. -/
  duplicates : d.IsConsistent → after.allDuplicates = d.allDuplicates ∧
    ∀ other, after.duplicatesOf other = d.duplicatesOf other

/-- What the last edit of a promotion sets for a key is the gap with that key. -/
theorem last?_promotions_eq_some_iff {canonical : Text}
    (hcode : Locale.canonical? code = some canonical) :
    last? locale? ((d.sortedGaps code base).map (promotion code)) key other = some text ↔
      Text.fold other = Text.fold code ∧
        ∃ k, (k, text) ∈ d.sortedGaps code base ∧ Text.fold k = Text.fold key := by
  rw [TextEdit.last?_eq, assigned_promotions hcode]
  split_ifs with hsame
  · have hget : (.ofList (d.sortedGaps code base) : KeyMap Text).get? key = some text ↔ _ :=
      Lexicon.get?_eq_some_iff
    rw [Lexicon.get?_ofList, Lexicon.entries_ofList (d.nodup_sortedGaps code base)] at hget
    simpa [hsame] using hget
  · simp [hsame]

/-- The edits of a promotion set the machine translation of a key when it fills a gap. -/
theorem last?_promotions {canonical : Text} (hcode : Locale.canonical? code = some canonical)
    (key : Text) :
    last? locale? ((d.sortedGaps code base).map (promotion code)) key code =
      if isUntranslated (d.text? key code) && !isUntranslated (d.machineText? key base) then
        d.machineText? key base
      else none := by
  apply Option.ext
  intro text
  rw [last?_promotions_eq_some_iff hcode]
  constructor
  · rintro ⟨-, k, hgap, hkey⟩
    obtain ⟨hmem, huntranslated, hblank⟩ := mem_sortedGaps.1 hgap
    have hmachine : d.machineText? key base = some text :=
      Lexicon.bind_get?_eq_some_iff.2 ⟨k, hmem, hkey⟩
    rw [d.text?_congr code hkey] at huntranslated
    rw [huntranslated, hmachine]
    simp [isUntranslated, hblank]
  · split_ifs with hgap
    · intro hmachine
      obtain ⟨k, hmem, hkey⟩ := Lexicon.bind_get?_eq_some_iff.1 hmachine
      refine ⟨rfl, k, mem_sortedGaps.2 ⟨hmem, ?_, ?_⟩, hkey⟩
      · rw [d.text?_congr code hkey]
        exact (Bool.and_eq_true_iff.1 hgap).1
      · rw [hmachine] at hgap
        simpa [isUntranslated] using (Bool.and_eq_true_iff.1 hgap).2
    · simp

/-- An edit leaves the duplicates of every locale as they are. -/
theorem duplicates_edited (h : d.IsConsistent) (edit : TextEdit) :
    (d.edited edit).allDuplicates = d.allDuplicates ∧
      ∀ other, (d.edited edit).duplicatesOf other = d.duplicatesOf other := by
  have hunlisted (other : Text) (hnew : d.texts.contains other = false) :
      d.duplicates.get? other = none := by
    rw [← Option.not_isSome_iff_eq_none, ← Lexicon.contains_eq_isSome, Lexicon.contains_iff,
      h.duplicates, ← Lexicon.contains_iff, hnew]
    exact Bool.false_ne_true
  constructor
  · unfold allDuplicates edited
    cases locale? edit with
    | none => rfl
    | some code =>
      dsimp only
      split_ifs with hloaded
      · rfl
      · have hnew := hunlisted code (Bool.not_eq_true _ ▸ hloaded)
        rw [Lexicon.entries_insert_of_new _ (Lexicon.get?_eq_none_iff.1 hnew)]
        simp [Lexicon.isEmpty]
  · intro other
    unfold duplicatesOf
    rw [get?_duplicates_edited]
    split_ifs with hnew
    · rw [hunlisted other (by simpa using (Bool.and_eq_true_iff.1 hnew).2)]
      rfl
    · rfl

/-- Edits leave the duplicates of every locale as they are. -/
theorem duplicates_foldl_edited (h : d.IsConsistent) {edits : List TextEdit}
    (haccepted : ∀ edit ∈ edits, edit.isRefused = false) :
    (edits.foldl edited d).allDuplicates = d.allDuplicates ∧
      ∀ other, (edits.foldl edited d).duplicatesOf other = d.duplicatesOf other := by
  induction edits generalizing d with
  | nil => exact ⟨rfl, fun _ => rfl⟩
  | cons edit edits ih =>
    rw [List.forall_mem_cons] at haccepted
    have happlied : d.applyEdit edit = .ok (d.edited edit) := by
      rw [applyEdit_eq, haccepted.1, if_neg Bool.false_ne_true]
    obtain ⟨hall, hof⟩ := duplicates_edited h edit
    obtain ⟨hall', hof'⟩ := ih (h.applyEdit happlied).1 haccepted.2
    exact ⟨hall'.trans hall, fun other => (hof' other).trans (hof other)⟩

/-- The edits of a promotion fill the gaps of their locale and do nothing else. -/
theorem isPromoted_foldl {canonical : Text} (hcode : Locale.canonical? code = some canonical)
    (d : DataSet) (base : Text) :
    let edits := (d.sortedGaps code base).map (promotion code)
    IsPromoted d code base edits (edits.foldl edited d) := by
  intro edits
  have haccepted := isRefused_of_mem_promotions hcode (d.sortedGaps code base)
  have hkeys : edits.map (·.key) = (d.sortedGaps code base).map (·.1) := List.map_map
  have hafter := isEdited_foldl d edits
  exact {
    mem_edits := fun edit => by
      simp only [edits, List.mem_map, mem_sortedGaps, promotion, and_assoc, eq_comm (a := edit)]
      exact exists_congr fun e => and_congr_right fun _ => and_left_comm
    once := by
      have hfolded : edits.map (fun edit => Text.fold edit.key) =
          (d.sortedGaps code base).map fun e => Text.fold e.1 := List.map_map
      exact hfolded ▸ d.nodup_sortedGaps code base
    sorted := by
      have hsorted : ((d.sortedGaps code base).mergeSort fun a b => keyLe a.1 b.1) =
          d.sortedGaps code base := List.mergeSort_of_pairwise (pairwise_mergeSort_keyLe _)
      rw [hkeys, sortKeys_map_fst, hsorted]
    text := fun key => by
      rw [hafter.text, last?_promotions hcode]
      split_ifs with hgap
      · have hmachine : ∃ text, d.machineText? key base = some text := by
          cases hfound : d.machineText? key base with
          | none => simp [hfound, isUntranslated] at hgap
          | some text => exact ⟨text, rfl⟩
        obtain ⟨text, hmachine⟩ := hmachine
        rw [hmachine, Option.some_or]
      · rw [Option.none_or]
    keys := by
      rw [hafter.locale, assigned_promotions hcode, if_pos rfl]
      cases d.sortedGaps code base with
      | nil => exact List.prefix_rfl
      | cons e gaps =>
        cases d.texts.get? code with
        | none => exact List.nil_prefix
        | some texts => exact texts.prefix_keys_insertAll (e :: gaps)
    other := fun other hother => by
      rw [hafter.locale, assigned_promotions hcode, if_neg hother, setPairs]
    codes := by
      rw [codes_foldl_promotion hcode, hcode, List.isEmpty_map]
      rfl
    machine := by
      refine (foldl_edited_tables d edits).2.trans (foldl_editTable_of_none d.machine ?_)
      intro edit hedit
      obtain ⟨e, -, rfl⟩ := List.mem_map.1 hedit
      rfl
    duplicates := fun hconsistent => duplicates_foldl_edited hconsistent haccepted }

/-- Once the gaps of a locale are filled, it has none. -/
theorem IsPromoted.sortedGaps_eq_nil {edits : List TextEdit}
    (h : d.IsPromoted code base edits after) : after.sortedGaps code base = [] := by
  rw [List.eq_nil_iff_forall_not_mem]
  intro e he
  obtain ⟨hmem, huntranslated, hblank⟩ := mem_sortedGaps.1 he
  rw [machineEntries, h.machine] at hmem
  have hmachine : d.machineText? e.1 base = some e.2 :=
    Lexicon.bind_get?_eq_some_iff.2 ⟨e.1, hmem, rfl⟩
  rw [h.text, hmachine] at huntranslated
  split_ifs at huntranslated with hgap
  · simp [isUntranslated, hblank] at huntranslated
  · rw [huntranslated, Bool.true_and] at hgap
    exact hgap (by simp [isUntranslated, hblank])

/-- Promotion fills the gaps of a locale and does nothing else. For every data set and every known
code the edits are found and accepted, and no edit is left to make afterwards. -/
theorem promotions_fill_gaps (d : DataSet) (hknown : Locale.isKnown code = true) :
    ∃ base edits after, Locale.base? code = some base ∧ d.promotions code none = .ok edits ∧
      d.applyEdits edits = .ok after ∧ d.IsPromoted code base edits after ∧
      after.promotions code none = .ok [] := by
  obtain ⟨locale, hlocale⟩ := Option.isSome_iff_exists.1 hknown
  have hcode : Locale.canonical? code = some locale.code := by
    rw [Locale.canonical?, hlocale, Option.map_some]
  have hbase : Locale.base? code = some locale.base := by
    rw [Locale.base?, hlocale, Option.map_some]
  have hpromoted := isPromoted_foldl hcode d locale.base
  have haccepted := isRefused_of_mem_promotions hcode (d.sortedGaps code locale.base)
  refine ⟨locale.base, _, _, hbase, promotions_eq hbase, applyEdits_of_accepted d haccepted,
    hpromoted, ?_⟩
  rw [promotions_eq hbase, hpromoted.sortedGaps_eq_nil, List.map_nil]

/-- A blank text and a missing one are filled, under other spellings of the code and of the keys. A
text that is not blank stays, and a blank machine translation is not promoted. -/
theorem promotions_fill_gaps_of_spellings :
    let texts : KeyMap Text := .ofList [("axe".toList, " ".toList), ("Bow".toList, "b".toList)]
    let machine : KeyMap Text := .ofList [("Cap".toList, "c".toList), ("AXE".toList, "a".toList),
      ("bow".toList, "x".toList), ("Dim".toList, " ".toList)]
    let d := (empty.addLocale "deDE".toList texts ∅).addMachine "de".toList machine
    Locale.isKnown "DEDE".toList = true ∧ d.IsConsistent ∧
      ∃ edits after, d.promotions "DEDE".toList none = .ok edits ∧
        edits.map (·.key) = ["AXE".toList, "Cap".toList] ∧ d.applyEdits edits = .ok after ∧
        after.text? "Axe".toList "DEDE".toList = some "a".toList ∧
        after.text? "cap".toList "DEDE".toList = some "c".toList ∧
        after.text? "bow".toList "DEDE".toList = some "b".toList ∧
        after.text? "Dim".toList "DEDE".toList = none ∧
        after.codes = ["deDE".toList] ∧ after.allDuplicates = d.allDuplicates ∧
        after.promotions "DEDE".toList none = .ok [] := by
  intro texts machine d
  have hknown : Locale.isKnown "DEDE".toList = true := by decide +kernel
  have hconsistent : d.IsConsistent :=
    (isConsistent_empty.addLocale "deDE".toList texts ∅).congr rfl rfl rfl
  obtain ⟨base, edits, after, hbase, hedits, happlied, hpromoted, hagain⟩ :=
    promotions_fill_gaps d hknown
  obtain rfl : "de".toList = base := Option.some.inj (hbase ▸ by decide +kernel)
  have hkeys : edits.map (·.key) = ["AXE".toList, "Cap".toList] := by
    have hgaps : d.gaps "DEDE".toList "de".toList =
        [("Cap".toList, "c".toList), ("AXE".toList, "a".toList)] := by
      decide +kernel
    have hsorted : [("AXE".toList, "a".toList), ("Cap".toList, "c".toList)] =
        d.sortedGaps "DEDE".toList "de".toList := by
      refine eq_of_perm_of_pairwise_keyLe ?_ (by decide +kernel) (pairwise_mergeSort_keyLe _)
        (by decide +kernel)
      rw [sortedGaps, hgaps]
      exact (List.Perm.swap _ _ _).trans (List.mergeSort_perm _ _).symm
    rw [promotions_eq hbase, ← hsorted] at hedits
    obtain rfl := Except.ok.inj hedits
    rfl
  refine ⟨hknown, hconsistent, edits, after, hedits, hkeys, happlied, ?_, ?_, ?_, ?_, ?_,
    (hpromoted.duplicates hconsistent).1, hagain⟩
  · rw [hpromoted.text]
    decide +kernel
  · rw [hpromoted.text]
    decide +kernel
  · rw [hpromoted.text]
    decide +kernel
  · rw [hpromoted.text]
    decide +kernel
  · rw [hpromoted.codes]
    have hloaded : d.texts.contains "DEDE".toList = true := by decide +kernel
    rw [hloaded, Bool.or_true]
    rfl

end DataSet

end Phrasebook
