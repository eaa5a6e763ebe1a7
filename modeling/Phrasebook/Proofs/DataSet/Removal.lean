import Phrasebook.Proofs.DataSet.Machine
import Phrasebook.Proofs.DataSet.Reachable
import Phrasebook.Proofs.Locale.Catalog

/-!
# Listing and removing orphans

A data set has parts, the texts of its locales and the machine translations of its base locales,
each with a file. The orphans of the parts are listed by file and removed part by part. Removal
leaves the entries with valid keys in the part and the other parts alone, so after a run over all
parts, in whatever order, there is nothing to list or to remove.
-/

namespace Phrasebook

namespace Lexicon

variable {V : Type}

/-- Changing the value of a key to what it is changes nothing. -/
theorem modify_eq_self {m : KeyMap V} {key : Text} {change : V → V}
    (h : ∀ value, m.get? key = some value → change value = value) : m.modify key change = m := by
  refine ext_get? (keys_modify m key change) fun key' => ?_
  rw [get?_modify]
  split_ifs with hfold
  · cases hget : m.get? key' with
    | none => rfl
    | some value => rw [Option.map_some, h value (m.get?_congr hfold ▸ hget)]
  · rfl

end Lexicon

namespace DataSet

variable {d : DataSet} {valid : KeySet} {key : Text}

/-! ### Parts -/

/-- A part of a data set. -/
inductive Part where
  /-- The texts of a locale. -/
  | locale (code : Text)
  /-- The machine translations of a base locale. -/
  | machine (base : Text)
  deriving DecidableEq, Repr

/-- The part under the folded form of its code. -/
def Part.fold : Part → Part
  | .locale code => .locale (Text.fold code)
  | .machine base => .machine (Text.fold base)

/-- The file of a part. -/
def Part.file : Part → Text
  | .locale code => Locale.file code
  | .machine base => Locale.machineFile base

/-- The parts of a data set, locales first. -/
def parts (d : DataSet) : List Part :=
  d.codes.map .locale ++ d.bases.map .machine

/-- The map of a part. -/
def get? (d : DataSet) : Part → Option (KeyMap Text)
  | .locale code => d.texts.get? code
  | .machine base => d.machine.get? base

/-- The entries of a part; none for a part that is not loaded. -/
def entriesOf (d : DataSet) (part : Part) : List (Text × Text) :=
  ((d.get? part).map (·.entries)).getD []

/-- The orphans of a part. -/
def orphansOf (d : DataSet) (part : Part) (valid : KeySet) : List Text :=
  match part with
  | .locale code => d.orphans code valid
  | .machine base => d.machineOrphans base valid

/-- The removal of the orphans of a part: their number, and the data set without them. -/
def removeFrom (d : DataSet) (part : Part) (valid : KeySet) : Nat × DataSet :=
  ((d.orphansOf part valid).length,
    match part with
    | .locale code => d.removeOrphans code valid
    | .machine base => d.removeMachineOrphans base valid)

/-- The data set after the orphans of several parts are removed, one part after another. -/
def removeAll (d : DataSet) (parts : List Part) (valid : KeySet) : DataSet :=
  parts.foldl (fun d part => (d.removeFrom part valid).2) d

/-- The orphans of a part are those of its map. -/
theorem orphansOf_eq (d : DataSet) (part : Part) (valid : KeySet) :
    d.orphansOf part valid = orphanKeys (d.get? part) valid := by
  cases part <;> rfl

/-- A part with a map is among the parts of the data set, up to case. -/
theorem exists_mem_parts {part : Part} {texts : KeyMap Text} (h : d.get? part = some texts) :
    ∃ p ∈ d.parts, p.fold = part.fold := by
  cases part with
  | locale code =>
    obtain ⟨k, hmem, hk⟩ := Lexicon.get?_eq_some_iff.1 h
    have hcode : k ∈ d.codes := List.mem_map_of_mem hmem
    exact ⟨.locale k, List.mem_append_left _ (List.mem_map_of_mem hcode), by simp [Part.fold, hk]⟩
  | machine base =>
    obtain ⟨k, hmem, hk⟩ := Lexicon.get?_eq_some_iff.1 h
    have hbase : k ∈ d.bases := List.mem_map_of_mem hmem
    exact ⟨.machine k, List.mem_append_right _ (List.mem_map_of_mem hbase), by simp [Part.fold, hk]⟩

/-! ### Removing -/

/-- Removing the orphans of a part changes the map of that part only. -/
theorem get?_removeFrom (d : DataSet) (part part' : Part) (valid : KeySet) :
    (d.removeFrom part valid).2.get? part' =
      if part.fold = part'.fold then (d.get? part').map fun texts => withoutOrphans texts valid
      else d.get? part' := by
  cases part <;> cases part' <;>
    simp [removeFrom, get?, Part.fold, removeOrphans, removeMachineOrphans, Lexicon.get?_modify]

/-- Removing the orphans of a part leaves the parts. -/
theorem parts_removeFrom (d : DataSet) (part : Part) (valid : KeySet) :
    (d.removeFrom part valid).2.parts = d.parts := by
  cases part with
  | locale code =>
    exact congrArg (fun codes => codes.map Part.locale ++ d.bases.map Part.machine)
      (Lexicon.keys_modify d.texts code _)
  | machine base =>
    exact congrArg (fun bases => d.codes.map Part.locale ++ bases.map Part.machine)
      (Lexicon.keys_modify d.machine base _)

/-- Removing the orphans of a part leaves its entries with valid keys. -/
theorem entriesOf_removeFrom (d : DataSet) (part : Part) (valid : KeySet) :
    (d.removeFrom part valid).2.entriesOf part =
      (d.entriesOf part).filter fun e => valid.contains e.1 := by
  unfold entriesOf
  rw [get?_removeFrom, if_pos rfl]
  cases d.get? part with
  | none => rfl
  | some texts => exact entries_withoutOrphans texts valid

/-- A part loses as many entries as orphans are removed. -/
theorem length_entriesOf_removeFrom (d : DataSet) (part : Part) (valid : KeySet) :
    ((d.removeFrom part valid).2.entriesOf part).length + (d.removeFrom part valid).1 =
      (d.entriesOf part).length := by
  have hcount : (d.removeFrom part valid).1 = (orphanKeys (d.get? part) valid).length := by
    rw [← orphansOf_eq]
    rfl
  unfold entriesOf
  rw [hcount, get?_removeFrom, if_pos rfl]
  cases d.get? part with
  | none => simp [orphanKeys]
  | some texts =>
    have hlength := (keys_perm texts valid).length_eq
    simpa [Lexicon.keys] using hlength

/-- A map without its orphans has none. -/
theorem orphanKeys_withoutOrphans (texts : KeyMap Text) (valid : KeySet) :
    orphanKeys (some (withoutOrphans texts valid)) valid = [] := by
  rw [List.eq_nil_iff_forall_not_mem]
  intro key hkey
  obtain ⟨hmem, hinvalid⟩ := mem_orphanKeys.1 hkey
  obtain ⟨e, he, rfl⟩ := List.mem_map.1 hmem
  rw [(mem_entries_withoutOrphans.1 he).2] at hinvalid
  exact Bool.noConfusion hinvalid

/-- A map without orphans is the same without them. -/
theorem withoutOrphans_of_orphanKeys_eq_nil {texts : KeyMap Text}
    (h : orphanKeys (some texts) valid = []) : withoutOrphans texts valid = texts := by
  rw [withoutOrphans, h, List.foldl_nil]

/-- From a part without orphans, none are removed, and nothing changes. -/
theorem removeFrom_of_orphansOf_eq_nil {part : Part} (h : d.orphansOf part valid = []) :
    d.removeFrom part valid = (0, d) := by
  have hsame : ∀ texts, d.get? part = some texts → withoutOrphans texts valid = texts := by
    intro texts htexts
    rw [orphansOf_eq, htexts] at h
    exact withoutOrphans_of_orphanKeys_eq_nil h
  refine Prod.ext (congrArg List.length h) ?_
  cases part with
  | locale code => exact congrArg (fun texts => { d with texts }) (Lexicon.modify_eq_self hsame)
  | machine base => exact congrArg (fun machine => { d with machine }) (Lexicon.modify_eq_self hsame)

/-! ### Runs of removals -/

/-- A run of removals leaves the entries with valid keys in each part that it comes to, and the
other parts as they were. -/
theorem get?_removeAll (d : DataSet) (parts : List Part) (part : Part) (valid : KeySet) :
    (d.removeAll parts valid).get? part =
      if part.fold ∈ parts.map Part.fold then
        (d.get? part).map fun texts => withoutOrphans texts valid
      else d.get? part := by
  induction parts generalizing d with
  | nil => rfl
  | cons first parts ih =>
    rw [removeAll, List.foldl_cons]
    refine (ih _).trans ?_
    rw [get?_removeFrom]
    by_cases hfirst : part.fold = first.fold
    · cases d.get? part with
      | none => simp
      | some texts =>
        simp [hfirst, withoutOrphans_of_orphanKeys_eq_nil (orphanKeys_withoutOrphans texts valid)]
    · simp [hfirst, Ne.symm hfirst]

/-- A run of removals leaves the parts. -/
theorem parts_removeAll (d : DataSet) (parts : List Part) (valid : KeySet) :
    (d.removeAll parts valid).parts = d.parts := by
  induction parts generalizing d with
  | nil => rfl
  | cons part parts ih => exact (ih _).trans (parts_removeFrom d part valid)

section All

variable {parts : List Part} (hall : ∀ part ∈ d.parts, ∃ p ∈ parts, p.fold = part.fold)

include hall

/-- A run of removals that comes to all parts takes the orphans from every map. -/
theorem get?_removeAll_of_forall (part : Part) :
    (d.removeAll parts valid).get? part =
      (d.get? part).map fun texts => withoutOrphans texts valid := by
  rw [get?_removeAll]
  cases hget : d.get? part with
  | none => simp
  | some texts =>
    obtain ⟨q, hq, hfold⟩ := exists_mem_parts hget
    obtain ⟨p, hp, hp'⟩ := hall q hq
    rw [if_pos (List.mem_map.2 ⟨p, hp, hp'.trans hfold⟩)]

/-- After a run of removals that comes to all parts, each has its entries with valid keys. -/
theorem entriesOf_removeAll (part : Part) :
    (d.removeAll parts valid).entriesOf part =
      (d.entriesOf part).filter fun e => valid.contains e.1 := by
  unfold entriesOf
  rw [get?_removeAll_of_forall hall]
  cases d.get? part with
  | none => rfl
  | some texts => exact entries_withoutOrphans texts valid

/-- After a run of removals that comes to all parts, no part has orphans. -/
theorem orphansOf_removeAll (part : Part) :
    (d.removeAll parts valid).orphansOf part valid = [] := by
  rw [orphansOf_eq, get?_removeAll_of_forall hall]
  cases d.get? part with
  | none => rfl
  | some texts => exact orphanKeys_withoutOrphans texts valid

end All

/-! ### The listing by file -/

/-- The locales and the base locales of a data set are spelled as in the catalog. -/
structure IsCatalogued (d : DataSet) : Prop where
  /-- The codes are those of locales. -/
  codes : ∀ code ∈ d.codes, code ∈ Locale.codes
  /-- The base locales are those of locales. -/
  bases : ∀ base ∈ d.bases, base ∈ Locale.bases

/-- Parts that are spelled as in the catalog have files of their own. -/
theorem IsCatalogued.inj_on_file (h : d.IsCatalogued) :
    ∀ part ∈ d.parts, ∀ part' ∈ d.parts, part.file = part'.file → part = part' := by
  have hcode : ∀ code, .locale code ∈ d.parts → code ∈ Locale.codes := fun code hpart =>
    h.codes code (by simpa [parts] using hpart)
  have hbase : ∀ base, .machine base ∈ d.parts → base ∈ Locale.bases := fun base hpart =>
    h.bases base (by simpa [parts] using hpart)
  intro part hpart part' hpart' hfile
  match part, part' with
  | .locale code, .locale code' => rw [Locale.file_injective hfile]
  | .machine base, .machine base' =>
    rw [(Locale.machineFile_of_mem_bases (hbase base hpart)).1 base' (hbase base' hpart') hfile]
  | .locale code, .machine base =>
    exact absurd hfile
      ((Locale.machineFile_of_mem_bases (hbase base hpart')).2 code (hcode code hpart))
  | .machine base, .locale code =>
    exact absurd hfile.symm
      ((Locale.machineFile_of_mem_bases (hbase base hpart)).2 code (hcode code hpart'))

/-- No part of a data set is listed twice. -/
theorem nodup_parts (d : DataSet) : d.parts.Nodup := by
  have hcodes : d.codes.Nodup := .of_map Text.fold d.texts.nodup_keys
  have hbases : d.bases.Nodup := .of_map Text.fold d.machine.nodup_keys
  refine List.nodup_append.2 ⟨hcodes.map fun _ _ => Part.locale.inj,
    hbases.map fun _ _ => Part.machine.inj, ?_⟩
  simp

/-- The listing has the files of the parts with orphans, in the order of the parts. -/
theorem entries_orphansByFile (h : d.IsCatalogued) (valid : KeySet) :
    (d.orphansByFile valid).entries =
      (d.parts.map fun part => (part.file, d.orphansOf part valid)).filter
        fun entry => !entry.2.isEmpty := by
  have hfiles : (d.parts.map Part.file).Nodup := d.nodup_parts.map_on h.inj_on_file
  have hlisted : (d.codes.map fun code => (Locale.file code, d.orphans code valid)) ++
      d.bases.map (fun base => (Locale.machineFile base, d.machineOrphans base valid)) =
        d.parts.map fun part => (part.file, d.orphansOf part valid) := by
    rw [parts, List.map_append, List.map_map, List.map_map]
    rfl
  rw [orphansByFile, hlisted]
  refine Lexicon.entries_ofList ((List.filter_sublist.map _).nodup ?_)
  rw [List.map_map]
  exact hfiles

/-- A list has the orphans of a part in key order. -/
structure IsOrphanList (d : DataSet) (part : Part) (valid orphans : List Text) : Prop where
  /-- The orphans are the stored keys that are valid in no spelling. -/
  mem_iff (key : Text) :
    key ∈ orphans ↔
      key ∈ (d.entriesOf part).map (·.1) ∧ ∀ v ∈ valid, Text.fold v ≠ Text.fold key
  /-- No orphan is listed twice, under whatever spellings. -/
  once : (orphans.map Text.fold).Nodup
  /-- The orphans are in key order. -/
  sorted : orphans.Pairwise fun a b => keyLe a b = true

/-- A key is valid when it is listed in some spelling. -/
theorem contains_ofList_eq_any (valid : List Text) (key : Text) :
    (KeySet.ofList valid).contains key = valid.any fun v => Text.fold v = Text.fold key := by
  rw [Bool.eq_iff_iff, KeySet.contains_ofList]
  simp

/-- The orphans that are found are such a list. -/
theorem isOrphanList_orphansOf (d : DataSet) (part : Part) (valid : List Text) :
    d.IsOrphanList part valid (d.orphansOf part (.ofList valid)) := by
  rw [orphansOf_eq]
  cases hget : d.get? part with
  | none =>
    exact ⟨fun key => by simp [orphanKeys, entriesOf, hget], List.nodup_nil, List.Pairwise.nil⟩
  | some texts =>
    refine ⟨fun key => ?_, ?_, pairwise_sortKeys _⟩
    · have hvalid : (KeySet.ofList valid).contains key = false ↔
          ∀ v ∈ valid, Text.fold v ≠ Text.fold key := by
        rw [contains_ofList_eq_any]
        simp
      rw [mem_orphanKeys, hvalid, entriesOf, hget]
      rfl
    · have horphans := (sortKeys_perm (texts.keys.filter fun key =>
        !(KeySet.ofList valid).contains key)).map Text.fold
      exact horphans.nodup_iff.2 ((List.filter_sublist.map _).nodup texts.nodup_keys)

/-- There is one such list. -/
theorem IsOrphanList.eq {part : Part} {valid orphans orphans' : List Text}
    (h : d.IsOrphanList part valid orphans) (h' : d.IsOrphanList part valid orphans') :
    orphans = orphans' := by
  have hperm : orphans.Perm orphans' :=
    (List.perm_ext_iff_of_nodup (.of_map _ h.once) (.of_map _ h'.once)).2 fun key => by
      rw [h.mem_iff, h'.mem_iff]
  exact hperm.eq_of_pairwise (fun _ _ _ _ => keyLe_antisymm) h.sorted h'.sorted

/-- A file is listed with the orphans of its part when there are some. -/
theorem mem_entries_orphansByFile (h : d.IsCatalogued) {valid orphans : List Text} {name : Text} :
    (name, orphans) ∈ (d.orphansByFile (.ofList valid)).entries ↔
      orphans ≠ [] ∧ ∃ part ∈ d.parts, part.file = name ∧ d.IsOrphanList part valid orphans := by
  rw [entries_orphansByFile h, List.mem_filter, List.mem_map]
  constructor
  · rintro ⟨⟨part, hpart, heq⟩, hne⟩
    obtain ⟨rfl, rfl⟩ := Prod.mk.inj heq
    exact ⟨by simpa using hne, part, hpart, rfl, d.isOrphanList_orphansOf part valid⟩
  · rintro ⟨hne, part, hpart, rfl, horphans⟩
    obtain rfl := horphans.eq (d.isOrphanList_orphansOf part valid)
    exact ⟨⟨part, hpart, rfl⟩, by simpa using hne⟩

/-- What the removal of the orphans of a part gives. -/
structure IsRemoval (d : DataSet) (part : Part) (valid : List Text) (result : Nat × DataSet) :
    Prop where
  /-- The number of the orphans is returned. -/
  count (orphans : List Text) (h : d.IsOrphanList part valid orphans) : result.1 = orphans.length
  /-- As many entries are gone. -/
  length : (result.2.entriesOf part).length + result.1 = (d.entriesOf part).length
  /-- The entries with valid keys are left, with their spelling and in their order. -/
  entries :
    result.2.entriesOf part =
      (d.entriesOf part).filter fun e => valid.any fun v => Text.fold v = Text.fold e.1
  /-- The maps of the other parts are as they were. -/
  other (other : Part) (h : other.fold ≠ part.fold) : result.2.get? other = d.get? other
  /-- The parts are as they were. -/
  parts : result.2.parts = d.parts
  /-- The duplicates are as they were. -/
  duplicates : result.2.duplicates = d.duplicates
  /-- The known keys are as they were. -/
  known : result.2.known = d.known

/-- Removal leaves the entries with valid keys, and leaves all else alone. -/
theorem isRemoval_removeFrom (d : DataSet) (part : Part) (valid : List Text) :
    d.IsRemoval part valid (d.removeFrom part (.ofList valid)) where
  count orphans h := by rw [h.eq (d.isOrphanList_orphansOf part valid)]; rfl
  length := length_entriesOf_removeFrom d part _
  entries := by
    rw [entriesOf_removeFrom]
    simp only [contains_ofList_eq_any]
  other other h := by rw [get?_removeFrom, if_neg (Ne.symm h)]
  parts := parts_removeFrom d part _
  duplicates := by cases part <;> rfl
  known := by cases part <;> rfl

/-- Listing and removing orphans agree. A file is listed exactly when its part has orphans, and with
all of them. Removing those of a part returns their number and leaves everything else. After a run
of removals that comes to all parts, in whatever order and under whatever spellings, each part has its
entries with valid keys, nothing is listed, and a further removal returns 0 and changes nothing. -/
theorem orphans_listed_and_removed (h : d.IsCatalogued) (valid : List Text) :
    (∀ name orphans, (name, orphans) ∈ (d.orphansByFile (.ofList valid)).entries ↔
      orphans ≠ [] ∧ ∃ part ∈ d.parts, part.file = name ∧ d.IsOrphanList part valid orphans) ∧
    (∀ part, d.IsOrphanList part valid (d.orphansOf part (.ofList valid)) ∧
      d.IsRemoval part valid (d.removeFrom part (.ofList valid))) ∧
    ∀ parts, (∀ part ∈ d.parts, ∃ p ∈ parts, p.fold = part.fold) →
      let after := d.removeAll parts (.ofList valid)
      after.parts = d.parts ∧
        (∀ part, after.entriesOf part =
          (d.entriesOf part).filter fun e => valid.any fun v => Text.fold v = Text.fold e.1) ∧
        (after.orphansByFile (.ofList valid)).entries = [] ∧
        ∀ part, after.removeFrom part (.ofList valid) = (0, after) := by
  refine ⟨fun _ _ => mem_entries_orphansByFile h, fun part =>
    ⟨d.isOrphanList_orphansOf part valid, d.isRemoval_removeFrom part valid⟩, ?_⟩
  intro parts hall after
  have hnone : ∀ part, after.orphansOf part (.ofList valid) = [] := orphansOf_removeAll hall
  refine ⟨parts_removeAll d parts _, fun part => ?_, orphansByFile_entries_eq_nil_iff.2
    ⟨fun code _ => hnone (.locale code), fun base _ => hnone (.machine base)⟩,
    fun part => removeFrom_of_orphansOf_eq_nil (hnone part)⟩
  rw [entriesOf_removeAll hall]
  simp only [contains_ofList_eq_any]

/-- A locale and the machine translations of a base locale lose their orphans, under other spellings
of the keys and of the code. The file of the base locale has the code of another locale in its
name. -/
theorem orphans_listed_and_removed_of_spellings :
    let texts : KeyMap Text := .ofList [("Axe".toList, "a".toList), ("Bow".toList, "b".toList)]
    let machine : KeyMap Text := .ofList [("dim".toList, "d".toList), ("bow".toList, "x".toList)]
    let d := (empty.addLocale "deDE".toList texts ∅).addMachine "zh".toList machine
    let valid := KeySet.ofList ["BOW".toList]
    let parts : List Part := [.machine "zh".toList, .locale "DEDE".toList]
    d.IsCatalogued ∧ (∀ part ∈ d.parts, ∃ p ∈ parts, p.fold = part.fold) ∧
      (∃ orphans, ("zhCN-GT.lua".toList, orphans) ∈ (d.orphansByFile valid).entries ∧
        "dim".toList ∈ orphans) ∧
      (d.removeFrom (.locale "DEDE".toList) valid).1 = 1 ∧
      (d.removeFrom (.locale "DEDE".toList) valid).2.entriesOf (.locale "DEDE".toList) =
        [("Bow".toList, "b".toList)] ∧
      ((d.removeAll parts valid).orphansByFile valid).entries = [] ∧
      (d.removeAll parts valid).removeFrom (.locale "deDE".toList) valid =
        (0, d.removeAll parts valid) := by
  intro texts machine d valid parts
  have hcatalogued : d.IsCatalogued := ⟨by decide +kernel, by decide +kernel⟩
  have hall : ∀ part ∈ d.parts, ∃ p ∈ parts, p.fold = part.fold := by decide +kernel
  obtain ⟨hlisted, hremoved, hrun⟩ := orphans_listed_and_removed hcatalogued ["BOW".toList]
  obtain ⟨-, -, hnone, hzero⟩ := hrun parts hall
  have hzh := (hremoved (.machine "zh".toList)).1
  have hdim : "dim".toList ∈ d.orphansOf (.machine "zh".toList) valid :=
    (hzh.mem_iff _).2 ⟨by decide +kernel, by decide +kernel⟩
  have hde := (hremoved (.locale "DEDE".toList)).2
  have hleft : (d.removeFrom (.locale "DEDE".toList) valid).2.entriesOf (.locale "DEDE".toList) =
      [("Bow".toList, "b".toList)] := by
    rw [hde.entries]
    decide +kernel
  have hcount : (d.removeFrom (.locale "DEDE".toList) valid).1 = 1 := by
    have hlength := hde.length
    have hbefore : (d.entriesOf (.locale "DEDE".toList)).length = 2 := by decide +kernel
    rw [hleft, hbefore, List.length_singleton, Nat.add_comm] at hlength
    exact Nat.succ.inj hlength
  refine ⟨hcatalogued, hall, ⟨_, (hlisted _ _).2 ⟨List.ne_nil_of_mem hdim, ?_⟩, hdim⟩, hcount,
    hleft, hnone, hzero _⟩
  exact ⟨.machine "zh".toList, by decide +kernel, by decide +kernel, hzh⟩

end DataSet

end Phrasebook
