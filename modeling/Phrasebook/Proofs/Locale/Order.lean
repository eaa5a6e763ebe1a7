import Phrasebook.Proofs.Key.Order
import Phrasebook.Proofs.Locale.Synthesis

/-!
# The order in which texts come

A file is written from what is found for each key and from the texts in key order. Two maps with the
same entries agree on both, in whatever order their entries came, unless keys differ only in case.
So the same file is written for them.
-/

namespace Phrasebook

/-- Maps with the same entries find the same value for every key. -/
theorem Lexicon.get?_of_perm {norm : Text → Text} {V : Type} {m n : Lexicon norm V}
    (h : m.entries.Perm n.entries) (key : Text) : m.get? key = n.get? key := by
  apply Option.ext
  intro value
  simp only [get?_eq_some_iff, h.mem_iff]

namespace Locale

/-- Maps with the same entries have the same entries in key order. -/
theorem sortedEntries_of_perm {norm : Text → Text} {texts texts' : Lexicon norm Text}
    (h : texts.entries.Perm texts'.entries) : sortedEntries texts = sortedEntries texts' := by
  have hperm : (sortedEntries texts).Perm (sortedEntries texts') :=
    (sortedEntries_perm texts).trans (h.trans (sortedEntries_perm texts').symm)
  have hkeys : ((sortedEntries texts).map (·.1)).Nodup :=
    ((sortedEntries_perm texts).map _).nodup_iff.2 (.of_map norm texts.nodup_keys)
  exact eq_of_perm_of_pairwise_keyLe hperm (pairwise_mergeSort_keyLe _)
    (pairwise_mergeSort_keyLe _) hkeys

/-- The lines of a region are edited by what is found for their keys. -/
theorem editRegion_congr {texts texts' : KeyMap Text}
    (h : ∀ key, texts.get? key = texts'.get? key) (style : Style) (guarded : Bool)
    (lines : List Text) :
    editRegion style texts guarded lines = editRegion style texts' guarded lines := by
  have hstep : Edit.step style texts guarded = Edit.step style texts' guarded := by
    funext e line
    unfold Edit.step Edit.assignment
    simp only [h]
  rw [editRegion, editRegion, hstep]

section Perm

variable {texts texts' : KeyMap Text} (h : texts.entries.Perm texts'.entries)

include h

/-- Maps with the same entries are missed by an edit in the same way. -/
theorem missing_of_perm (e : Edit) : e.missing texts = e.missing texts' := by
  rw [Edit.missing, Edit.missing, sortedEntries_of_perm h]

/-- An existing file is merged with the same result, and the same is told about it. -/
theorem mergeLines_of_perm (style : Style) (lines : List Text) :
    mergeLines style lines texts = mergeLines style lines texts' ∧
      mergeRecords style lines texts = mergeRecords style lines texts' := by
  have hget := Lexicon.get?_of_perm h
  unfold mergeLines mergeRecords
  cases region? style.table lines with
  | none => exact ⟨rfl, rfl⟩
  | some region =>
    dsimp only
    rw [mergeRegion_eq, mergeRegion_eq, editRegion_congr hget, missing_of_perm h]
    exact ⟨rfl, rfl⟩

end Perm

/-- The file of a locale does not depend on the order in which its texts come, whether it is written
anew or merged, and neither does what is told about it: as long as no two keys differ only in case,
maps with the same entries are written alike. -/
theorem fileLines_ignores_order (style : Style) (code : Text) {texts texts' : Dictionary Text}
    (hperm : texts.entries.Perm texts'.entries) (hdistinct : (texts.keys.map Text.fold).Nodup)
    (existing : Option (List Text)) :
    fileLines style code texts existing = fileLines style code texts' existing ∧
      fileRecords style texts existing = fileRecords style texts' existing := by
  have hkeys : texts.keys.Perm texts'.keys := hperm.map _
  have hdistinct' : (texts'.keys.map Text.fold).Nodup :=
    (hkeys.map Text.fold).nodup_iff.1 hdistinct
  have hcollapsed : (upToCase texts).entries.Perm (upToCase texts').entries := by
    rwa [entries_upToCase hdistinct, entries_upToCase hdistinct']
  have hnew : newFile style [code] texts guardIndent = newFile style [code] texts' guardIndent := by
    rw [newFile, newFile, sortedEntries_of_perm hperm]
  obtain ⟨hlines, hrecords⟩ := mergeLines_of_perm hcollapsed style (existing.getD [])
  exact ⟨by rw [fileLines, fileLines, hnew, hlines], by rw [fileRecords, fileRecords, hrecords]⟩

/-- Three texts come in two orders; one of them replaces a line, one clears its key, one is new. -/
theorem fileLines_ignores_order_of_rotated :
    let existing := ["L[\"b\"] = \"x\"".toList, "L[\"c\"] = \"y\"".toList]
    let entries := [("B".toList, "z".toList), ("C".toList, " ".toList), ("A".toList, "new".toList)]
    let texts : Dictionary Text := .ofList entries
    let texts' : Dictionary Text := .ofList (entries.rotate 1)
    texts.entries.Perm texts'.entries ∧ texts.keys ≠ texts'.keys ∧
      (texts.keys.map Text.fold).Nodup ∧
      fileLines .default "deDE".toList texts (some existing) =
        fileLines .default "deDE".toList texts' (some existing) := by
  intro existing entries texts texts'
  have hperm : texts.entries.Perm texts'.entries := by decide +kernel
  have hdistinct : (texts.keys.map Text.fold).Nodup := by decide +kernel
  exact ⟨hperm, by decide +kernel, hdistinct,
    (fileLines_ignores_order .default "deDE".toList hperm hdistinct (some existing)).1⟩

end Locale

end Phrasebook
