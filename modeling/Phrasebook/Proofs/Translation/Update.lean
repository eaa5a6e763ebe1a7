import Phrasebook.Proofs.DataSet.Machine
import Phrasebook.Proofs.Job.Reading
import Phrasebook.Proofs.Key.Order
import Phrasebook.Translation.Update

/-!
# What an update of machine translations does

An update keeps the entries of a base locale whose keys are wanted, and adds an entry for each text
of the source locale that has none and for which the service has given a translation. Only the texts
without an entry are asked for, and the service is not asked when there are none.
-/

namespace Phrasebook.Translation

open DataSet (machineEntries)
open Job (Yields)

variable {d : DataSet} {base source language : Text} {valid : Option KeySet}

/-- The machine translations of a base locale that an update keeps: those of wanted keys. -/
def keptEntries (d : DataSet) (base : Text) (valid : Option KeySet) : List (Text × Text) :=
  (d.machineEntries base).filter fun e => isWanted valid e.1

/-- The entries of the source locale that an update has to translate: those with a text that is not
blank and a wanted key of which no machine translation is kept. -/
def missingEntries (d : DataSet) (base : Text) (valid : Option KeySet) (source : Text) :
    List (Text × Text) :=
  (((d.texts.get? source).map (·.entries)).getD []).filter fun e =>
    !Text.isBlankText e.2 && isWanted valid e.1 &&
      (keptEntries d base valid).all fun k => Text.fold k.1 ≠ Text.fold e.1

/-- The kept entries are those of valid keys. -/
theorem mem_keptEntries {keys : KeySet} {e : Text × Text} :
    e ∈ keptEntries d base (some keys) ↔
      e ∈ d.machineEntries base ∧ keys.contains e.1 = true :=
  List.mem_filter

/-- The missing entries are those of the source locale with a text that is not blank and a valid key
of which no machine translation is kept. -/
theorem mem_missingEntries {keys : KeySet} {e : Text × Text} :
    e ∈ missingEntries d base (some keys) source ↔
      e ∈ ((d.texts.get? source).map (·.entries)).getD [] ∧ Text.isBlankText e.2 = false ∧
        keys.contains e.1 = true ∧
          ∀ k ∈ keptEntries d base (some keys), Text.fold k.1 ≠ Text.fold e.1 := by
  rw [missingEntries, List.mem_filter]
  simp only [isWanted, Option.all_some, Bool.and_eq_true, Bool.not_eq_true',
    List.all_eq_true, decide_eq_true_eq, and_assoc]

/-- The machine translations that an answer gives for missing entries. -/
def answeredEntries (missing : List (Text × Text)) (answer : Dictionary Text) :
    List (Text × Text) :=
  missing.filterMap fun e => (answer.get? e.2).map fun translation => (e.1, translation)

/-- What an update comes to when the service gives an answer for the missing texts. -/
structure IsUpdated (d : DataSet) (base : Text) (valid : Option KeySet) (source : Text)
    (answer : Dictionary Text) (u : Update) : Prop where
  /-- Behind the machine translations that are kept come those of the answer, in key order. -/
  entries : ∃ new, machineEntries u.dataSet base = keptEntries d base valid ++ new ∧
    new.Perm (answeredEntries (missingEntries d base valid source) answer) ∧
    new.map (·.1) = u.added
  /-- The added keys are those of the answer. -/
  added : u.added =
    sortKeys ((answeredEntries (missingEntries d base valid source) answer).map (·.1))
  /-- The removed keys are those of the old entries that are not wanted. -/
  removed : u.removed =
    sortKeys (((d.machineEntries base).filter fun e => !isWanted valid e.1).map (·.1))
  /-- The texts of the locales stay. -/
  texts : u.dataSet.texts = d.texts
  /-- The duplicates stay. -/
  duplicates : u.dataSet.duplicates = d.duplicates
  /-- The known keys stay. -/
  known : u.dataSet.known = d.known
  /-- The machine translations of the other base locales stay. -/
  others : ∀ other, Text.fold other ≠ Text.fold base →
    u.dataSet.machine.get? other = d.machine.get? other

/-- The data set without the dropped keys has the kept entries. -/
theorem machineEntries_dropKeys (d : DataSet) (base : Text) (valid : Option KeySet) :
    (dropKeys d base valid).machineEntries base = keptEntries d base valid := by
  cases valid with
  | none => simp [dropKeys, keptEntries, isWanted]
  | some valid => exact d.machineEntries_removeMachineOrphans base valid

/-- Only the machine translations of the base locale are dropped. -/
theorem dropKeys_frame (d : DataSet) (base : Text) (valid : Option KeySet) :
    (dropKeys d base valid).texts = d.texts ∧ (dropKeys d base valid).duplicates = d.duplicates ∧
      (dropKeys d base valid).known = d.known ∧ ∀ other, Text.fold other ≠ Text.fold base →
        (dropKeys d base valid).machine.get? other = d.machine.get? other := by
  cases valid with
  | none => exact ⟨rfl, rfl, rfl, fun _ _ => rfl⟩
  | some valid =>
    refine ⟨rfl, rfl, rfl, fun other h => ?_⟩
    rw [dropKeys, DataSet.get?_machine_removeMachineOrphans, if_neg (Ne.symm h)]

/-- The dropped keys are those of the old entries that are not wanted. -/
theorem droppedKeys_eq (d : DataSet) (base : Text) (valid : Option KeySet) :
    droppedKeys d base valid =
      sortKeys (((d.machineEntries base).filter fun e => !isWanted valid e.1).map (·.1)) := by
  cases valid with
  | none => simp [droppedKeys, isWanted, sortKeys]
  | some valid => exact d.machineOrphans_eq base valid

/-- The missing texts are the missing entries. -/
theorem missingTexts_eq (d : DataSet) (base : Text) (valid : Option KeySet) (source : Text) :
    missingTexts (dropKeys d base valid) base valid source =
      missingEntries d base valid source := by
  rw [missingTexts, missingEntries, (dropKeys_frame d base valid).1]
  refine List.filter_congr fun e _ => ?_
  rw [DataSet.hasMachineText_eq, machineEntries_dropKeys, Bool.and_right_comm,
    List.not_any_eq_all_not]
  simp

/-- The missing entries have distinct keys, none of which has a machine translation that is kept. -/
theorem nodup_kept_append_missing (d : DataSet) (base : Text) (valid : Option KeySet)
    (source : Text) : ((keptEntries d base valid ++ missingEntries d base valid source).map fun e =>
      Text.fold e.1).Nodup := by
  rw [List.map_append, List.nodup_append]
  refine ⟨(List.filter_sublist.map _).nodup (d.nodup_machineEntries base), ?_, ?_⟩
  · refine (List.filter_sublist.map _).nodup ?_
    cases d.texts.get? source with
    | none => exact List.nodup_nil
    | some texts => exact texts.distinct
  · intro folded hkept other hmissing
    obtain ⟨k, hk, rfl⟩ := List.mem_map.1 hkept
    obtain ⟨e, he, rfl⟩ := List.mem_map.1 hmissing
    have hnone := (Bool.and_eq_true_iff.1 (List.mem_filter.1 he).2).2
    exact of_decide_eq_true (List.all_eq_true.1 hnone k hk)

/-- The machine translations that are added for an answer. -/
def addedEntries (missing : List (Text × Text)) (answer : Dictionary Text) : List (Text × Text) :=
  answeredEntries (missing.mergeSort fun a b => keyLe a.1 b.1) answer

/-- The edits of an update add the machine translations of the answer. -/
theorem additions_eq (base : Text) (missing : List (Text × Text)) (answer : Dictionary Text) :
    additions base missing answer =
      (addedEntries missing answer).map fun e => ⟨e.1, base, e.2, true⟩ := by
  rw [additions, addedEntries, answeredEntries, List.map_filterMap]
  simp only [Option.map_map]
  rfl

/-- All that is answered is added. -/
theorem addedEntries_perm (missing : List (Text × Text)) (answer : Dictionary Text) :
    (addedEntries missing answer).Perm (answeredEntries missing answer) :=
  (List.mergeSort_perm _ _).filterMap _

/-- The keys are added in key order. -/
theorem map_fst_addedEntries (missing : List (Text × Text)) (answer : Dictionary Text) :
    (addedEntries missing answer).map (·.1) =
      sortKeys ((answeredEntries missing answer).map (·.1)) := by
  refine eq_sortKeys_of_perm (List.pairwise_map.2 ?_) ((addedEntries_perm missing answer).map _)
  refine List.Pairwise.filterMap _ ?_ (pairwise_mergeSort_keyLe missing)
  intro e e' hle added hadded added' hadded'
  obtain ⟨_, -, rfl⟩ := Option.map_eq_some_iff.1 hadded
  obtain ⟨_, -, rfl⟩ := Option.map_eq_some_iff.1 hadded'
  exact hle

/-- The answered entries have keys of missing ones. -/
theorem map_fst_answeredEntries_sublist (missing : List (Text × Text)) (answer : Dictionary Text) :
    ((answeredEntries missing answer).map fun e => Text.fold e.1).Sublist
      (missing.map fun e => Text.fold e.1) := by
  induction missing with
  | nil => exact List.Sublist.refl _
  | cons e missing ih =>
    rw [answeredEntries, List.filterMap_cons]
    cases answer.get? e.2 with
    | none => exact ih.cons _
    | some translation => exact ih.cons_cons _

/-- The data set with the machine translations of an answer is what an update comes to. -/
theorem isUpdated_setMachineTexts (d : DataSet) (base : Text) (valid : Option KeySet)
    (source : Text) (answer : Dictionary Text) :
    let added := addedEntries (missingEntries d base valid source) answer
    IsUpdated d base valid source answer
      ⟨(dropKeys d base valid).setMachineTexts base added, added.map (·.1),
        droppedKeys d base valid⟩ := by
  intro added
  obtain ⟨htexts, hduplicates, hknown, hothers⟩ := dropKeys_frame d base valid
  obtain ⟨htexts', hduplicates', hknown'⟩ :=
    DataSet.setMachineTexts_frame (dropKeys d base valid) base added
  have hperm := addedEntries_perm (missingEntries d base valid source) answer
  have hnodup : (((dropKeys d base valid).machineEntries base ++ added).map fun e =>
      Text.fold e.1).Nodup := by
    rw [machineEntries_dropKeys]
    refine ((hperm.append_left _).map _).nodup_iff.2 ?_
    rw [List.map_append]
    refine List.Sublist.nodup ?_ (nodup_kept_append_missing d base valid source)
    rw [List.map_append]
    exact (map_fst_answeredEntries_sublist _ answer).append_left _
  refine ⟨⟨added, ?_, hperm, rfl⟩, map_fst_addedEntries _ answer, droppedKeys_eq d base valid,
    htexts'.trans htexts, hduplicates'.trans hduplicates, hknown'.trans hknown, fun other h => ?_⟩
  · rw [DataSet.machineEntries_setMachineTexts hnodup, machineEntries_dropKeys]
  · rw [DataSet.get?_machine_setMachineTexts_of_ne h, hothers other h]

/-- Taking note of removed orphans leaves nothing behind but a record. -/
theorem recordRemoved_yields (disk : Disk) (base : Text) (removed : List Text) :
    Yields disk (recordRemoved base removed) ⟨⟩ := by
  unfold recordRemoved
  split
  · exact Yields.pure _
  · exact Yields.record _ _

/-- For a base locale with a language, an update without missing texts leaves nothing behind but
records, and keeps the machine translations of wanted keys. Otherwise it has the missing texts
translated, once and in the order of the source locale, and ends as the translation does: with the
same fault, or with the data set that has the machine translations of the answer. -/
theorem update_spec (hlanguage : Locale.language? base = some language)
    (translate : List Text → Text → Job (Dictionary Text)) (d : DataSet) (valid : Option KeySet)
    (source : Text) :
    let missing := missingEntries d base valid source
    (missing = [] → ∃ u, IsUpdated d base valid source ∅ u ∧ ∀ w, ∃ records : List Record,
      Job.outcome (update translate d base valid source) w =
        (.ok u, { w with trace := w.trace ++ records.map .recorded })) ∧
    (missing ≠ [] → ∀ w, ∃ noted : List Record,
      match Job.outcome (translate (missing.map (·.2)) language)
          { w with trace := w.trace ++ noted.map .recorded } with
      | (.ok answer, w') => ∃ u, IsUpdated d base valid source answer u ∧ ∃ records : List Record,
          Job.outcome (update translate d base valid source) w =
            (.ok u, { w' with trace := w'.trace ++ records.map .recorded })
      | (.error fault, w') =>
          Job.outcome (update translate d base valid source) w = (.error fault, w')) := by
  intro missing
  have hmissing : missingTexts (dropKeys d base valid) base valid source = missing :=
    missingTexts_eq d base valid source
  unfold update
  simp only [hlanguage, DataSet.copy_eq, hmissing]
  constructor
  · intro hnone
    have hupdated := isUpdated_setMachineTexts d base valid source ∅
    rw [show missingEntries d base valid source = [] from hnone] at hupdated
    have hempty : addedEntries [] (∅ : Dictionary Text) = [] := by
      simp [addedEntries, answeredEntries]
    rw [hempty] at hupdated
    refine ⟨⟨dropKeys d base valid, [], droppedKeys d base valid⟩, hupdated, fun w => ?_⟩
    simp only [hnone, List.isEmpty_nil, if_true]
    refine (?_ : Yields w.disk _ _) w rfl
    exact Yields.bind (recordRemoved_yields w.disk base _)
      (Yields.bind (Yields.record _ _) (Yields.pure _))
  · intro hsome w
    obtain ⟨noted, hnoted⟩ := recordRemoved_yields w.disk base (droppedKeys d base valid) w rfl
    refine ⟨noted, ?_⟩
    have hmore : missing.isEmpty = false := by simpa using hsome
    simp only [Job.outcome_bind, hnoted, hmore, Bool.false_eq_true, if_false]
    generalize Job.outcome (translate (missing.map (·.2)) language) _ = o
    obtain ⟨fault | answer, w'⟩ := o
    · rfl
    · refine ⟨_, isUpdated_setMachineTexts d base valid source answer, ?_⟩
      have htarget := DataSet.machineTarget_of_language? hlanguage
      simp only [additions_eq, DataSet.applyEdits_machine htarget, Job.outcome_record,
        Job.outcome_pure, List.map_map]
      exact ⟨[_], rfl⟩

/-- An update drops an entry that is not wanted and adds the one translation that the service gives;
a blank text, an unwanted key and a key that has an entry in another case are not asked for. -/
theorem update_spec_of_german :
    let source : KeyMap Text := .ofList [("Name".toList, "name".toList), ("B".toList, "b".toList),
      ("None".toList, " ".toList), ("C".toList, "c".toList), ("Other".toList, "o".toList)]
    let old : KeyMap Text := .ofList [("NAME".toList, "x".toList), ("Gone".toList, "y".toList)]
    let d : DataSet := ⟨.ofList [("enUS".toList, source)], .ofList [("de".toList, old)], ∅, ∅⟩
    let valid : KeySet := .ofList ["name".toList, "b".toList, "c".toList, "none".toList]
    let translate : List Text → Text → Job (Dictionary Text) := fun texts _ =>
      return .ofList ((texts.take 1).map fun t => (t, '*' :: t))
    let w : World := ⟨⟨[], []⟩, [], [], fun _ => .timeout [], [], []⟩
    Locale.language? "de".toList = some "de".toList ∧ ∃ u, (∃ records : List Record,
      Job.outcome (update translate d "de".toList (some valid) "enUS".toList) w =
        (.ok u, { w with trace := w.trace ++ records.map .recorded })) ∧
      machineEntries u.dataSet "de".toList =
        [("NAME".toList, "x".toList), ("B".toList, "*b".toList)] := by
  intro source old d valid translate w
  have hlanguage : Locale.language? "de".toList = some "de".toList := by decide +kernel
  have hmissing : missingEntries d "de".toList (some valid) "enUS".toList =
      [("B".toList, "b".toList), ("C".toList, "c".toList)] := by decide +kernel
  have hkept : keptEntries d "de".toList (some valid) = [("NAME".toList, "x".toList)] := by
    decide +kernel
  obtain ⟨-, hsome⟩ := update_spec hlanguage translate d (some valid) "enUS".toList
  obtain ⟨noted, hrun⟩ := hsome (by rw [hmissing]; exact List.cons_ne_nil _ _) w
  rw [hmissing] at hrun
  obtain ⟨u, hupdated, records, hrun⟩ := hrun
  refine ⟨hlanguage, u, ⟨noted ++ records, by rw [hrun]; simp⟩, ?_⟩
  obtain ⟨new, hentries, hperm, -⟩ := hupdated.entries
  have hanswered : answeredEntries [("B".toList, "b".toList), ("C".toList, "c".toList)]
      (.ofList [("b".toList, "*b".toList)]) = [("B".toList, "*b".toList)] := by decide +kernel
  rw [hmissing] at hperm
  rw [hentries, hkept, List.perm_singleton.1 (hperm.trans (.of_eq hanswered))]
  rfl

end Phrasebook.Translation
