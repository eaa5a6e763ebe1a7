import Mathlib.Tactic.SplitIfs
import Phrasebook.DataSet.Orphans
import Phrasebook.Proofs.Key.Operation
import Phrasebook.Proofs.Key.Order
import Phrasebook.Proofs.Key.Union

/-!
# Removing orphans

A data set is copied before anything is removed from it, and the copy is the same. The orphans of a
map are its keys that are not valid, so what is left without them are the entries with valid keys.
Removing the orphans of one locale leaves the texts of the others.
-/

namespace Phrasebook

namespace Lexicon

variable {norm : Text → Text} {V : Type}

/-- Without several keys, the entries with other normal forms are left. -/
theorem entries_foldl_erase (m : Lexicon norm V) (keys : List Text) :
    (keys.foldl erase m).entries =
      m.entries.filter fun e => norm e.1 ∉ keys.map norm := by
  induction keys generalizing m with
  | nil => simp
  | cons key keys ih =>
    rw [List.foldl_cons, ih, erase, filter, List.filter_filter]
    refine List.filter_congr fun e _ => ?_
    rw [Bool.eq_iff_iff]
    simp [List.mem_cons, and_comm]

/-- A changed value is the value of its key only. -/
theorem get?_modify (m : Lexicon norm V) (key key' : Text) (change : V → V) :
    (m.modify key change).get? key' =
      if norm key = norm key' then (m.get? key').map change else m.get? key' := by
  unfold modify
  cases hget : m.get? key with
  | none =>
    split_ifs with h
    · rw [← get?_congr m h, hget, Option.map_none]
    · rfl
  | some value =>
    simp only [get?_insert]
    split_ifs with h
    · rw [← get?_congr m h, hget, Option.map_some]
    · rfl

end Lexicon

namespace DataSet

variable {texts : KeyMap Text} {valid : KeySet} {key : Text}

/-- A table that is made anew is the table. -/
theorem copyTable_eq {V : Type} (table : KeyMap (KeyMap V)) : copyTable table = table := by
  have hentries : (table.items.map fun entry => (entry.1, entry.2.copy)) = table.entries := by
    rw [Lexicon.items_eq_entries]
    simp only [Lexicon.copy_eq]
    exact List.map_id _
  rw [copyTable, hentries, Lexicon.ofList_entries]

/-- A copy of a data set is the data set. -/
theorem copy_eq (d : DataSet) : d.copy = d := by
  unfold copy
  rw [copyTable_eq, copyTable_eq, copyTable_eq, KeySet.ofList_keys]

/-- The text of a key is that of an entry of the locale that has the key. -/
theorem text?_eq_some_iff {d : DataSet} {code text : Text} :
    d.text? key code = some text ↔
      ∃ k, (k, text) ∈ ((d.texts.get? code).map (·.entries)).getD [] ∧
        Text.fold k = Text.fold key :=
  Lexicon.bind_get?_eq_some_iff

/-- The orphans of a map are its keys that are not valid. -/
theorem mem_orphanKeys :
    key ∈ orphanKeys (some texts) valid ↔ key ∈ texts.keys ∧ valid.contains key = false := by
  rw [orphanKeys, (sortKeys_perm _).mem_iff, List.mem_filter, Bool.not_eq_true']

/-- Only a map has orphans. -/
theorem exists_of_orphanKeys_ne_nil {found : Option (KeyMap Text)}
    (h : orphanKeys found valid ≠ []) : ∃ texts, found = some texts := by
  cases found with
  | none => exact absurd rfl h
  | some texts => exact ⟨texts, rfl⟩

/-- What is loaded for a file has no orphans when all its keys are valid. -/
theorem orphanKeys_eq_nil_iff {found : Option (KeyMap Text)} :
    orphanKeys found valid = [] ↔
      ∀ key, found.bind (·.get? key) ≠ none → valid.contains key = true := by
  cases found with
  | none => simp [orphanKeys]
  | some texts =>
    rw [List.eq_nil_iff_forall_not_mem]
    constructor
    · intro hnone key hkey
      obtain ⟨value, hvalue⟩ := Option.ne_none_iff_exists'.1 hkey
      obtain ⟨k, hmem, hk⟩ := Lexicon.get?_eq_some_iff.1 hvalue
      by_contra hinvalid
      rw [← KeySet.contains_congr valid hk] at hinvalid
      exact hnone k (mem_orphanKeys.2 ⟨List.mem_map_of_mem hmem, by simpa using hinvalid⟩)
    · intro hvalid key hkey
      obtain ⟨hmem, hinvalid⟩ := mem_orphanKeys.1 hkey
      obtain ⟨e, he, rfl⟩ := List.mem_map.1 hmem
      have hget : texts.get? e.1 = some e.2 := Lexicon.get?_eq_some_iff.2 ⟨e.1, he, rfl⟩
      rw [hvalid e.1 (by simp [hget])] at hinvalid
      exact Bool.noConfusion hinvalid

/-- A key is stored: some loaded locale has a text of it, or some base locale a machine
translation. -/
def IsStored (data : DataSet) (key : Text) : Prop :=
  (∃ code ∈ data.codes, data.text? key code ≠ none) ∨
    ∃ base ∈ data.bases, data.machineText? key base ≠ none

/-- No file holds orphans when no locale and no base locale has some. -/
theorem orphansByFile_entries_eq_nil_iff {data : DataSet} :
    (data.orphansByFile valid).entries = [] ↔
      (∀ code ∈ data.codes, data.orphans code valid = []) ∧
        ∀ base ∈ data.bases, data.machineOrphans base valid = [] := by
  rw [orphansByFile, Lexicon.entries_ofList_eq_nil_iff, List.filter_eq_nil_iff]
  simp [or_imp, forall_and]

/-- No file holds orphans when every stored key is valid. -/
theorem orphansByFile_entries_eq_nil {data : DataSet}
    (h : ∀ key, data.IsStored key → valid.contains key = true) :
    (data.orphansByFile valid).entries = [] :=
  orphansByFile_entries_eq_nil_iff.2
    ⟨fun code hcode => orphanKeys_eq_nil_iff.2 fun key hkey => h key (Or.inl ⟨code, hcode, hkey⟩),
      fun base hbase => orphanKeys_eq_nil_iff.2 fun key hkey => h key (Or.inr ⟨base, hbase, hkey⟩)⟩

/-- Without its orphans, a map has the entries with valid keys. -/
theorem entries_withoutOrphans (texts : KeyMap Text) (valid : KeySet) :
    (withoutOrphans texts valid).entries = texts.entries.filter fun e => valid.contains e.1 := by
  rw [withoutOrphans, Lexicon.entries_foldl_erase]
  refine List.filter_congr fun e he => ?_
  cases hvalid : valid.contains e.1 with
  | true =>
    simp only [List.mem_map, not_exists, not_and, decide_eq_true_eq]
    intro orphan horphan hfold
    have hinvalid := (mem_orphanKeys.1 horphan).2
    rw [KeySet.contains_congr valid hfold, hvalid] at hinvalid
    exact Bool.noConfusion hinvalid
  | false =>
    have horphan : e.1 ∈ orphanKeys (some texts) valid :=
      mem_orphanKeys.2 ⟨List.mem_map_of_mem he, hvalid⟩
    simpa using ⟨e.1, horphan, rfl⟩

/-- An entry is no orphan when its key is valid. -/
theorem mem_entries_withoutOrphans {e : Text × Text} :
    e ∈ (withoutOrphans texts valid).entries ↔ e ∈ texts.entries ∧ valid.contains e.1 = true := by
  rw [entries_withoutOrphans, List.mem_filter]

/-- A map consists of its valid keys and its orphans. -/
theorem keys_perm (texts : KeyMap Text) (valid : KeySet) :
    ((withoutOrphans texts valid).keys ++ orphanKeys (some texts) valid).Perm texts.keys := by
  have hvalid : (withoutOrphans texts valid).keys = texts.keys.filter valid.contains := by
    rw [Lexicon.keys, entries_withoutOrphans, Lexicon.keys, List.filter_map]
    rfl
  have horphans : (orphanKeys (some texts) valid).Perm
      (texts.keys.filter fun key => !valid.contains key) := sortKeys_perm _
  rw [hvalid]
  exact (horphans.append_left _).trans (List.filter_append_perm _ _)

/-- Removing the orphans of a locale changes the texts of that locale only. -/
theorem get?_texts_removeOrphans (d : DataSet) (code code' : Text) (valid : KeySet) :
    (d.removeOrphans code valid).texts.get? code' =
      if Text.fold code = Text.fold code' then
        (d.texts.get? code').map fun texts => withoutOrphans texts valid
      else d.texts.get? code' :=
  Lexicon.get?_modify _ _ _ _

/-- Removing the orphans of a base locale changes the machine translations of that base locale
only. -/
theorem get?_machine_removeMachineOrphans (d : DataSet) (base base' : Text) (valid : KeySet) :
    (d.removeMachineOrphans base valid).machine.get? base' =
      if Text.fold base = Text.fold base' then
        (d.machine.get? base').map fun texts => withoutOrphans texts valid
      else d.machine.get? base' :=
  Lexicon.get?_modify _ _ _ _

end DataSet

end Phrasebook
