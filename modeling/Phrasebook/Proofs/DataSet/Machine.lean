import Phrasebook.DataSet.Edits
import Phrasebook.Proofs.DataSet.Orphans

/-!
# Machine translations of a base locale

The machine translations of a base locale, entry by entry: what is left without the orphans, and what
edits add to them. Edits of machine translations are never refused, and they leave the locales and
the other base locales alone.
-/

namespace Phrasebook.DataSet

variable {d : DataSet} {base key : Text}

/-- The machine translations of a base locale; none for a base locale that has no file. -/
def machineEntries (d : DataSet) (base : Text) : List (Text × Text) :=
  ((d.machine.get? base).map (·.entries)).getD []

/-- The entries of a base locale have distinct keys. -/
theorem nodup_machineEntries (d : DataSet) (base : Text) :
    ((d.machineEntries base).map fun e => Text.fold e.1).Nodup := by
  unfold machineEntries
  cases d.machine.get? base with
  | none => exact List.nodup_nil
  | some texts => exact texts.distinct

/-- A base locale has a machine translation of a key when one of its entries has the key. -/
theorem machineText?_ne_none_iff :
    d.machineText? key base ≠ none ↔
      ∃ e ∈ d.machineEntries base, Text.fold e.1 = Text.fold key := by
  rw [Option.ne_none_iff_exists']
  constructor
  · rintro ⟨text, htext⟩
    obtain ⟨k, hmem, hk⟩ := Lexicon.bind_get?_eq_some_iff.1 htext
    exact ⟨_, hmem, hk⟩
  · rintro ⟨e, hmem, hk⟩
    exact ⟨e.2, Lexicon.bind_get?_eq_some_iff.2 ⟨e.1, hmem, hk⟩⟩

/-- Whether a base locale has a machine translation of a key, entry by entry. -/
theorem hasMachineText_eq (d : DataSet) (key base : Text) :
    d.hasMachineText key base =
      (d.machineEntries base).any fun e => Text.fold e.1 = Text.fold key := by
  unfold hasMachineText machineEntries
  cases d.machine.get? base with
  | none => rfl
  | some texts =>
    rw [Bool.eq_iff_iff]
    simp [Lexicon.contains, Lexicon.find?]

/-- The orphans of a base locale are the keys of its entries that are not valid. -/
theorem machineOrphans_eq (d : DataSet) (base : Text) (valid : KeySet) :
    d.machineOrphans base valid =
      sortKeys (((d.machineEntries base).filter fun e => !valid.contains e.1).map (·.1)) := by
  unfold machineOrphans machineEntries
  cases d.machine.get? base with
  | none => simp [orphanKeys, sortKeys]
  | some texts =>
    rw [orphanKeys, Lexicon.keys, List.filter_map]
    rfl

/-- Without its orphans, a base locale has the entries with valid keys. -/
theorem machineEntries_removeMachineOrphans (d : DataSet) (base : Text) (valid : KeySet) :
    (d.removeMachineOrphans base valid).machineEntries base =
      (d.machineEntries base).filter fun e => valid.contains e.1 := by
  unfold machineEntries
  rw [get?_machine_removeMachineOrphans, if_pos rfl]
  cases d.machine.get? base with
  | none => rfl
  | some texts => exact entries_withoutOrphans texts valid

/-- An edit of a machine translation goes to the base locale of a base locale of the catalog. -/
theorem machineTarget_of_language? {language : Text} (h : Locale.language? base = some language) :
    machineTarget base = base := by
  have hall : ∀ locale ∈ Locale.catalog, machineTarget locale.base = locale.base := by
    decide +kernel
  obtain ⟨locale, hlocale, -⟩ := Option.map_eq_some_iff.1 h
  have hbase : locale.base = base := by simpa using List.find?_some hlocale
  exact hbase ▸ hall locale (List.mem_of_find?_eq_some hlocale)

/-- The data set with several machine translations of a base locale set. -/
def setMachineTexts (d : DataSet) (base : Text) (texts : List (Text × Text)) : DataSet :=
  texts.foldl (fun d e => d.setMachineText e.1 base e.2) d

/-- Edits of machine translations of a base locale are applied one after another. -/
theorem applyEdits_machine (htarget : machineTarget base = base) (d : DataSet)
    (texts : List (Text × Text)) :
    d.applyEdits (texts.map fun e => ⟨e.1, base, e.2, true⟩) =
      .ok (d.setMachineTexts base texts) := by
  rw [applyEdits, copy_eq]
  induction texts generalizing d with
  | nil => rfl
  | cons e texts ih =>
    have hstep : d.applyEdit ⟨e.1, base, e.2, true⟩ = .ok (d.setMachineText e.1 base e.2) := by
      rw [applyEdit, if_pos rfl, htarget]
    rw [List.map_cons, List.foldlM_cons, hstep]
    exact ih _

/-- Machine translations leave the locales alone. -/
theorem setMachineTexts_frame (d : DataSet) (base : Text) (texts : List (Text × Text)) :
    (d.setMachineTexts base texts).texts = d.texts ∧
      (d.setMachineTexts base texts).duplicates = d.duplicates ∧
      (d.setMachineTexts base texts).known = d.known := by
  induction texts generalizing d with
  | nil => exact ⟨rfl, rfl, rfl⟩
  | cons e texts ih => exact ih (d.setMachineText e.1 base e.2)

/-- Machine translations of a base locale leave the other base locales alone. -/
theorem get?_machine_setMachineTexts_of_ne {other : Text} (h : Text.fold other ≠ Text.fold base)
    (d : DataSet) (texts : List (Text × Text)) :
    (d.setMachineTexts base texts).machine.get? other = d.machine.get? other := by
  induction texts generalizing d with
  | nil => rfl
  | cons e texts ih =>
    rw [setMachineTexts, List.foldl_cons]
    refine (ih _).trans ?_
    rw [setMachineText, Lexicon.get?_insert, if_neg (Ne.symm h)]

/-- New machine translations of a base locale come behind those that it has. -/
theorem machineEntries_setMachineTexts {texts : List (Text × Text)}
    (h : ((d.machineEntries base ++ texts).map fun e => Text.fold e.1).Nodup) :
    (d.setMachineTexts base texts).machineEntries base = d.machineEntries base ++ texts := by
  induction texts generalizing d with
  | nil => simp [setMachineTexts]
  | cons e texts ih =>
    have hnew : ∀ e' ∈ d.machineEntries base, Text.fold e'.1 ≠ Text.fold e.1 := by
      intro e' he'
      rw [List.map_append, List.nodup_append] at h
      exact h.2.2 _ (List.mem_map_of_mem he') _ (by simp)
    have hstep : (d.setMachineText e.1 base e.2).machineEntries base =
        d.machineEntries base ++ [e] := by
      unfold machineEntries at hnew ⊢
      rw [setMachineText, Lexicon.get?_insert, if_pos rfl]
      cases hget : d.machine.get? base with
      | none => rfl
      | some known =>
        rw [hget] at hnew
        exact Lexicon.entries_insert_of_new e.2 hnew
    have hrest : (((d.setMachineText e.1 base e.2).machineEntries base ++ texts).map fun e =>
        Text.fold e.1).Nodup := by
      rwa [hstep, List.append_assoc]
    rw [setMachineTexts, List.foldl_cons]
    refine (ih hrest).trans ?_
    rw [hstep, List.append_assoc]
    rfl

end Phrasebook.DataSet
