import Phrasebook.Proofs.Key.History
import Phrasebook.Proofs.Locale.Synthesis

/-!
# Spellings of a key in a new file

A merge compares keys up to case: of keys that differ in case only it writes the first spelling with
the last text. A new file is written from the keys as they are, so it gets a line for each spelling.
Merging texts into a new file without entries is writing a new file from the texts after their
spellings were put together. That is the file that is written from the texts themselves exactly when
no key that has a text to write comes in a second spelling.
-/

namespace Phrasebook.Locale

open Text (isBlankText)

variable {style : Style} {texts texts' : Dictionary Text} {e : Text × Text}

/-- Merging texts into a new file without entries is writing a new file with them. -/
theorem mergeLines_newFile_empty (style : Style) (code : Text) (texts : KeyMap Text) :
    mergeLines style (newFile style [code] ∅ guardIndent) texts =
      newFile style [code] (exactly texts) guardIndent := by
  obtain ⟨hcopied, hnone⟩ := editRegion_header style texts true
  have hempty : writtenEntries ∅ = [] := by simp [writtenEntries, sortedEntries]
  have hmissing : (editRegion style texts true [style.binding, guardIndent]).missing texts =
      writtenEntries (exactly texts) := by
    refine List.filter_congr fun e _ => ?_
    rw [contains_handled_editRegion, hnone, Bool.not_false, Bool.true_and]
  have hlayout : Layout style.table _ ([style.binding, guardIndent] ++ []) _ true :=
    layout_newFile style code (by simp)
  rw [newFile_eq, newFile_eq, hempty, List.map_nil, hlayout.mergeLines, List.append_nil,
    mergeRegion_eq, hcopied, hmissing]
  rfl

/-- The keys of the entries of a new file can be told from its lines. -/
theorem map_fst_writtenEntries_of_newFile_eq {codes : List Text} {spacer : Text}
    (hkeys : ∀ key ∈ texts.keys, Glue.IsKey key) (hkeys' : ∀ key ∈ texts'.keys, Glue.IsKey key)
    (h : newFile style codes texts spacer = newFile style codes texts' spacer) :
    (writtenEntries texts).map (·.1) = (writtenEntries texts').map (·.1) := by
  have hread : ∀ {t : Dictionary Text}, (∀ key ∈ t.keys, Glue.IsKey key) →
      ((writtenEntries t).map fun e => style.line guardIndent e.1 e.2).map
          (Glue.assignedKey? style.table) =
        ((writtenEntries t).map (·.1)).map some := by
    intro t ht
    rw [List.map_map, List.map_map]
    refine List.map_congr_left fun e he => ?_
    have hkey : Glue.IsKey e.1 := ht e.1 (List.mem_map_of_mem (mem_writtenEntries.1 he).1)
    exact Glue.assignedKey?_line (a := ⟨e.1, e.2, guardIndent⟩) style.table hkey rfl
  rw [newFile_eq, newFile_eq, List.append_cancel_left_eq, List.append_cancel_right_eq,
    List.append_cancel_left_eq] at h
  have hsame := congrArg (List.map (Glue.assignedKey? style.table)) h
  rw [hread hkeys, hread hkeys'] at hsame
  exact List.map_injective_iff.2 (fun _ _ => Option.some.inj) hsame

/-- New files with the same entries have them in the same order. -/
theorem writtenEntries_ext (h : ∀ e, e ∈ writtenEntries texts ↔ e ∈ writtenEntries texts') :
    writtenEntries texts = writtenEntries texts' := by
  have hkeys : ∀ t : Dictionary Text, ((writtenEntries t).map (·.1)).Nodup := fun t =>
    ((writtenEntries_perm t).map _).nodup_iff.2 ((List.filter_sublist.map _).nodup t.distinct)
  have hperm : (writtenEntries texts).Perm (writtenEntries texts') :=
    (List.perm_ext_iff_of_nodup (.of_map _ (hkeys texts)) (.of_map _ (hkeys texts'))).2 h
  exact eq_of_perm_of_pairwise_keyLe hperm (pairwise_writtenEntries texts)
    (pairwise_writtenEntries texts') (hkeys texts)

/-- The entries of a map whose keys differ from a key in case only. -/
def spellings (texts : Dictionary Text) (key : Text) : List (Text × Text) :=
  texts.entries.filter fun e => Text.fold e.1 = Text.fold key

/-- A key comes in no other spelling. -/
def IsSpelledOnce (texts : Dictionary Text) (key : Text) : Prop :=
  ∀ k ∈ texts.keys, Text.fold k = Text.fold key → k = key

theorem mem_spellings {key : Text} :
    e ∈ spellings texts key ↔ e ∈ texts.entries ∧ Text.fold e.1 = Text.fold key := by
  rw [spellings, List.mem_filter, decide_eq_true_eq]

/-- Up to case, a key has its first spelling and the text of its last one. -/
theorem mem_upToCase_iff :
    e ∈ (upToCase texts).entries ↔ ∃ first ∈ (spellings texts e.1).head?,
      ∃ last ∈ (spellings texts e.1).getLast?, (first.1, last.2) = e := by
  have hfind : (upToCase texts).find? e.1 = (spellings texts e.1).head?.bind fun first =>
      (spellings texts e.1).getLast?.map fun last => (first.1, last.2) :=
    Lexicon.find?_ofList texts.entries e.1
  have hmem : e ∈ (upToCase texts).entries ↔ (upToCase texts).find? e.1 = some e := by
    rw [Lexicon.find?_eq_some_iff, and_iff_left rfl]
  simp only [hmem, hfind, Option.bind_eq_some_iff, Option.map_eq_some_iff, Option.mem_def]

/-- The entry of a key that is spelled once is the only one with its key. -/
theorem IsSpelledOnce.eq_of_mem_spellings (h : IsSpelledOnce texts e.1) (he : e ∈ texts.entries)
    {e' : Text × Text} (he' : e' ∈ spellings texts e.1) : e' = e := by
  obtain ⟨hmem, hfold⟩ := mem_spellings.1 he'
  exact texts.eq_of_mem_of_norm_eq hmem he (h e'.1 (List.mem_map_of_mem hmem) hfold)

/-- A key is spelled once when its first spelling is its last one. -/
theorem isSpelledOnce_of_head?_of_getLast? {key : Text}
    (hfirst : (spellings texts key).head? = some e)
    (hlast : (spellings texts key).getLast? = some e) : IsSpelledOnce texts e.1 := by
  have hnodup : (spellings texts key).Nodup :=
    (List.Nodup.of_map _ texts.distinct).filter _
  have hfold : Text.fold e.1 = Text.fold key := (mem_spellings.1 (List.mem_of_getLast? hlast)).2
  obtain ⟨rest, hsplit⟩ := List.head?_eq_some_iff.1 hfirst
  rw [hsplit] at hlast hnodup
  have hrest : rest = [] := by
    cases rest with
    | nil => rfl
    | cons e' rest =>
      rw [List.getLast?_cons_cons] at hlast
      exact absurd (List.mem_of_getLast? hlast) (List.nodup_cons.1 hnodup).1
  intro k hk hsame
  obtain ⟨e', he', rfl⟩ := List.mem_map.1 hk
  have hmem : e' ∈ spellings texts key := mem_spellings.2 ⟨he', hsame.trans hfold⟩
  rw [hsplit, hrest, List.mem_singleton] at hmem
  rw [hmem]

/-- When the same keys are written up to case, a key that has a text to write is spelled once. -/
theorem isSpelledOnce_of_map_fst_eq
    (h : (writtenEntries texts).map (·.1) = (writtenEntries (exactly (upToCase texts))).map (·.1))
    (he : e ∈ texts.entries) (hblank : isBlankText e.2 = false) : IsSpelledOnce texts e.1 := by
  have hkept : ∀ {e}, e ∈ texts.entries → isBlankText e.2 = false →
      ∃ e' ∈ (upToCase texts).entries, isBlankText e'.2 = false ∧ e'.1 = e.1 := by
    intro e he hblank
    have hkey : e.1 ∈ (writtenEntries texts).map (·.1) :=
      List.mem_map_of_mem (mem_writtenEntries.2 ⟨he, hblank⟩)
    rw [h] at hkey
    obtain ⟨e', he', hsame⟩ := List.mem_map.1 hkey
    exact ⟨e', (mem_writtenEntries.1 he').1, (mem_writtenEntries.1 he').2, hsame⟩
  -- The entry up to case has the first spelling, and the last spelling is written as well.
  obtain ⟨e₁, he₁, hblank₁, hkey₁⟩ := hkept he hblank
  obtain ⟨first, hfirst, last, hlast, rfl⟩ := mem_upToCase_iff.1 he₁
  obtain ⟨hmem, hfold⟩ := mem_spellings.1 (List.mem_of_getLast? hlast)
  obtain ⟨e₂, he₂, -, hkey₂⟩ := hkept hmem hblank₁
  have hsame : e₂ = (first.1, last.2) :=
    (upToCase texts).eq_of_mem_of_norm_eq he₂ he₁ (by rw [hkey₂, hfold])
  obtain rfl : first = last :=
    texts.eq_of_mem_of_norm_eq (mem_spellings.1 (List.mem_of_head? hfirst)).1 hmem
      ((congrArg (·.1) hsame).symm.trans hkey₂)
  rw [← hkey₁]
  exact isSpelledOnce_of_head?_of_getLast? hfirst hlast

/-- When each key that has a text to write is spelled once, the same entries are written up to
case. -/
theorem writtenEntries_upToCase
    (h : ∀ e ∈ texts.entries, isBlankText e.2 = false → IsSpelledOnce texts e.1) :
    writtenEntries texts = writtenEntries (exactly (upToCase texts)) := by
  refine writtenEntries_ext fun e => ?_
  rw [mem_writtenEntries, mem_writtenEntries]
  refine and_congr_left fun hblank => ⟨fun he => ?_, fun he => ?_⟩
  · have honly : ∀ e' ∈ spellings texts e.1, e' = e := fun _ =>
      (h e he hblank).eq_of_mem_spellings he
    have hne : spellings texts e.1 ≠ [] := List.ne_nil_of_mem (mem_spellings.2 ⟨he, rfl⟩)
    refine mem_upToCase_iff.2 ⟨_, List.head?_eq_some_head hne, _,
      List.getLast?_eq_some_getLast hne, ?_⟩
    rw [honly _ (List.head_mem hne), honly _ (List.getLast_mem hne)]
  · obtain ⟨first, hfirst, last, hlast, rfl⟩ := mem_upToCase_iff.1 he
    obtain ⟨hfmem, hffold⟩ := mem_spellings.1 (List.mem_of_head? hfirst)
    obtain ⟨hlmem, hlfold⟩ := mem_spellings.1 (List.mem_of_getLast? hlast)
    have hkey : first.1 = last.1 :=
      h last hlmem hblank first.1 (List.mem_map_of_mem hfmem) (hffold.trans hlfold.symm)
    rw [hkey]
    exact hlmem

/-- Merging texts into a new file without entries writes the texts up to case. Writing a new file
with them at once gives the same lines exactly when each key that has a text to write is spelled
once: of several spellings a merge keeps the first one with the last text. -/
theorem newFile_eq_mergeLines_iff (style : Style) (code : Text) {texts : Dictionary Text}
    (hkeys : ∀ key ∈ texts.keys, Glue.IsKey key) :
    mergeLines style (newFile style [code] ∅ guardIndent) (upToCase texts) =
        newFile style [code] (exactly (upToCase texts)) guardIndent ∧
      (newFile style [code] texts guardIndent =
          mergeLines style (newFile style [code] ∅ guardIndent) (upToCase texts) ↔
        ∀ e ∈ texts.entries, isBlankText e.2 = false → IsSpelledOnce texts e.1) := by
  have hmerged := mergeLines_newFile_empty style code (upToCase texts)
  have hkeys' : ∀ key ∈ (exactly (upToCase texts)).keys, Glue.IsKey key := by
    intro key hkey
    obtain ⟨e, he, rfl⟩ := List.mem_map.1 hkey
    obtain ⟨first, hfirst, last, -, rfl⟩ := mem_upToCase_iff.1 he
    exact hkeys first.1 (List.mem_map_of_mem (mem_spellings.1 (List.mem_of_head? hfirst)).1)
  refine ⟨hmerged, ?_⟩
  rw [hmerged]
  constructor
  · intro hsame e he hblank
    have hwritten := map_fst_writtenEntries_of_newFile_eq hkeys hkeys' hsame
    exact isSpelledOnce_of_map_fst_eq hwritten he hblank
  · intro honce
    rw [newFile_eq, newFile_eq, writtenEntries_upToCase honce]

/-- A key that comes in two spellings has two lines in a new file and one after a merge. -/
theorem newFile_ne_mergeLines_of_two_spellings :
    let texts : Dictionary Text := .ofList [("A".toList, "x".toList), ("a".toList, "y".toList)]
    (∀ key ∈ texts.keys, Glue.IsKey key) ∧
      newFile .default ["deDE".toList] texts guardIndent ≠
        mergeLines .default (newFile .default ["deDE".toList] ∅ guardIndent) (upToCase texts) := by
  intro texts
  have hkeys : ∀ key ∈ texts.keys, Glue.IsKey key := by decide +kernel
  refine ⟨hkeys, fun hsame => ?_⟩
  have honce := (newFile_eq_mergeLines_iff .default "deDE".toList hkeys).2.1 hsame
    ("A".toList, "x".toList) (by decide +kernel) (by decide +kernel)
  exact absurd (honce "a".toList (by decide +kernel) (by decide +kernel)) (by decide)

end Phrasebook.Locale
