import Mathlib.Algebra.BigOperators.Group.List.Lemmas
import Mathlib.Algebra.GroupWithZero.Nat
import Phrasebook.Proofs.Locale.Entries
import Phrasebook.Proofs.Workspace.Reading

/-!
# What the lines of a locale file leave

The keys of a locale file are those of its literal assignments, each in the spelling and at the place of
its first one. The values of a key are those of all its assignments; the last one is its text, and a key
with several of them is a duplicate. Every assignment belongs to one key, so the values of the duplicates
and the other keys make up the assignments of the file.
-/

namespace Phrasebook

open Text (fold)

namespace Locale

/-- Keys without those of which another spelling stands in front. -/
def firstSpellings : List Text → List Text
  | [] => []
  | key :: keys => key :: (firstSpellings keys).filter fun k => fold k ≠ fold key

/-! ### First spellings -/

/-- Every key has a first spelling. -/
theorem map_fold_firstSpellings {folded : Text} {keys : List Text} :
    folded ∈ (firstSpellings keys).map fold ↔ folded ∈ keys.map fold := by
  induction keys with
  | nil => rfl
  | cons key keys ih =>
    rw [firstSpellings, List.map_cons, List.map_cons, List.mem_cons, List.mem_cons]
    by_cases h : folded = fold key
    · simp [h]
    · rw [or_iff_right h, or_iff_right h, ← ih]
      simp only [List.mem_map, List.mem_filter, decide_eq_true_eq]
      constructor
      · rintro ⟨k, ⟨hk, -⟩, rfl⟩
        exact ⟨k, hk, rfl⟩
      · rintro ⟨k, hk, rfl⟩
        exact ⟨k, ⟨hk, h⟩, rfl⟩

/-- First spellings are those of different keys. -/
theorem nodup_firstSpellings (keys : List Text) : ((firstSpellings keys).map fold).Nodup := by
  induction keys with
  | nil => exact List.nodup_nil
  | cons key keys ih =>
    rw [firstSpellings, List.map_cons, List.nodup_cons]
    refine ⟨?_, (List.filter_sublist.map fold).nodup ih⟩
    simp

/-- A further key is spelled first when no other spelling of it stands in front. -/
theorem firstSpellings_concat (keys : List Text) (key : Text) :
    firstSpellings (keys ++ [key]) =
      if fold key ∈ keys.map fold then firstSpellings keys else firstSpellings keys ++ [key] := by
  induction keys with
  | nil => rfl
  | cons k keys ih =>
    rw [List.cons_append, firstSpellings, ih, List.map_cons, firstSpellings]
    by_cases hk : fold key = fold k
    · split_ifs <;> simp_all
    · have hother : fold key ∈ fold k :: keys.map fold ↔ fold key ∈ keys.map fold := by
        simp [hk]
      rw [if_congr hother rfl rfl]
      split_ifs
      · rfl
      · simp [hk]

/-- Every key is a spelling of one first one, so the spellings of all first ones are as many as the
keys. -/
theorem sum_countP_firstSpellings (keys : List Text) :
    ((firstSpellings keys).map fun k => keys.countP fun key => fold key = fold k).sum =
      keys.length := by
  have hperm : ((firstSpellings keys).map fold).Perm (keys.map fold).dedup := by
    refine (List.perm_ext_iff_of_nodup (nodup_firstSpellings keys) (List.nodup_dedup _)).2 ?_
    intro folded
    rw [map_fold_firstSpellings, List.mem_dedup]
  have htotal := List.sum_map_count_dedup_eq_length (keys.map fold)
  rw [← (hperm.map _).sum_eq, List.map_map, List.length_map] at htotal
  refine Eq.trans (congrArg List.sum (List.map_congr_left fun k _ => ?_)) htotal
  refine Eq.trans ?_ List.countP_map.symm
  exact List.countP_congr fun key _ => by simp

/-! ### The values of the keys -/

variable {table : Text} {lines : List Text}

/-- The keys that are given values stand in the spelling and at the place of their first assignments. -/
theorem keys_valuesByKey (assigned : List Glue.Assignment) :
    (valuesByKey assigned).keys = firstSpellings (assigned.map (·.key)) := by
  induction assigned using List.reverseRecOn with
  | nil => rfl
  | append_singleton assigned a ih =>
    rw [valuesByKey_concat, Lexicon.keys_insert, ih, List.map_append, List.map_singleton, firstSpellings_concat]
    exact if_congr map_fold_firstSpellings rfl rfl

/-- A key that is assigned has values. -/
theorem literals_ne_nil {k : Text} (h : k ∈ (valuesByKey (assignments table lines)).keys) :
    literals table k lines ≠ [] := by
  intro hnone
  have hvalues := get?_valuesByKey (assignments table lines) k
  unfold literals at hnone
  rw [hnone] at hvalues
  obtain ⟨e, he, rfl⟩ := List.mem_map.1 h
  exact Lexicon.get?_eq_none_iff.1 hvalues e he rfl

/-- The values that are collected for the keys are those of their literal assignments. -/
theorem entries_valuesByKey_eq (table : Text) (lines : List Text) :
    (valuesByKey (assignments table lines)).entries =
      (firstSpellings ((assignments table lines).map (·.key))).map
        fun k => (k, literals table k lines) := by
  refine Lexicon.entries_eq_map ((keys_valuesByKey _).trans (List.map_id' _).symm) fun k hk => ?_
  rw [← keys_valuesByKey] at hk
  have hsome := literals_ne_nil hk
  rw [get?_valuesByKey]
  unfold literals at hsome ⊢
  split
  next h => exact absurd h hsome
  next => rfl

/-- All values of all keys are as many as the literal assignments. -/
theorem sum_length_literals (table : Text) (lines : List Text) :
    ((firstSpellings ((assignments table lines).map (·.key))).map
      fun k => (literals table k lines).length).sum = lines.countP (isLiteral table) := by
  have htotal := sum_countP_firstSpellings ((assignments table lines).map (·.key))
  rw [List.length_map, assignments, List.length_filterMap_eq_countP] at htotal
  refine Eq.trans (congrArg List.sum (List.map_congr_left fun k _ => ?_)) htotal
  rw [literals, List.length_map, ← List.countP_eq_length_filter, List.countP_map]
  rfl

/-! ### The entries of a file -/

/-- Entries that say of the lines of a file what they leave: each key in the spelling and at the place
of its first literal assignment, with the value of the last one, and all values of the keys that have
several. -/
structure Collects (table : Text) (lines : List Text) (e : Entries) : Prop where
  /-- The keys are those of the literal assignments, each once and spelled as at first. -/
  keys : e.texts.keys = firstSpellings ((assignments table lines).map (·.key))
  /-- The text of a key is the last of its values. -/
  text (key : Text) : e.texts.get? key = (literals table key lines).getLast?
  /-- The duplicates are the keys with at least two values, together with all of them. -/
  duplicates : e.duplicates.entries =
    (e.texts.keys.filter fun k => 2 ≤ (literals table k lines).length).map
      fun k => (k, ⟨k, literals table k lines⟩)
  /-- The value that a duplicate ends up with is the text of the key. -/
  final : ∀ entry ∈ e.duplicates.entries, e.texts.get? entry.1 = entry.2.final?
  /-- The values of the duplicates and the other keys make up the literal assignments. -/
  count : (e.duplicates.values.map fun d => d.values.length).sum +
    (e.texts.keys.filter fun k => !e.duplicates.contains k).length = lines.countP (isLiteral table)

/-- The keys of the texts are the first spellings of the assigned keys. -/
theorem keys_texts (table : Text) (lines : List Text) :
    (Entries.ofLines table lines).texts.keys =
      firstSpellings ((assignments table lines).map (·.key)) := by
  rw [Lexicon.keys, entries_texts, List.map_map]
  exact keys_valuesByKey _

/-- The duplicates are the keys with at least two values. -/
theorem entries_duplicates_eq (table : Text) (lines : List Text) :
    (Entries.ofLines table lines).duplicates.entries =
      ((Entries.ofLines table lines).texts.keys.filter
        fun k => 2 ≤ (literals table k lines).length).map
          fun k => (k, ⟨k, literals table k lines⟩) := by
  rw [keys_texts, entries_duplicates, entries_valuesByKey_eq, List.filter_map, List.map_map]
  rfl

/-- A key of a file is a duplicate exactly when it has at least two values. -/
theorem contains_duplicates_iff {k : Text} (h : k ∈ (Entries.ofLines table lines).texts.keys) :
    (Entries.ofLines table lines).duplicates.contains k = true ↔
      2 ≤ (literals table k lines).length := by
  rw [Lexicon.contains_iff, Lexicon.keys, entries_duplicates_eq, List.map_map]
  constructor
  · rintro ⟨_, hmem, hfold⟩
    obtain ⟨k', hk', rfl⟩ := List.mem_map.1 hmem
    rw [← literals_congr hfold]
    exact of_decide_eq_true (List.mem_filter.1 hk').2
  · intro hlong
    exact ⟨k, List.mem_map.2 ⟨k, List.mem_filter.2 ⟨h, decide_eq_true hlong⟩, rfl⟩, rfl⟩

/-- The values of the duplicates and the other keys make up the literal assignments. -/
theorem sum_duplicates_add (table : Text) (lines : List Text) :
    let e := Entries.ofLines table lines
    (e.duplicates.values.map fun d => d.values.length).sum +
      (e.texts.keys.filter fun k => !e.duplicates.contains k).length =
        lines.countP (isLiteral table) := by
  intro e
  set several : Text → Bool := fun k => 2 ≤ (literals table k lines).length
  have hseveral : (e.duplicates.values.map fun d => d.values.length) =
      (e.texts.keys.filter several).map fun k => (literals table k lines).length := by
    rw [Lexicon.values, entries_duplicates_eq, List.map_map, List.map_map]
    rfl
  have hothers : (e.texts.keys.filter fun k => !e.duplicates.contains k).length =
      ((e.texts.keys.filter fun k => !several k).map fun k => (literals table k lines).length).sum := by
    have hsame : (e.texts.keys.filter fun k => !e.duplicates.contains k) =
        e.texts.keys.filter fun k => !several k := by
      refine List.filter_congr fun k hk => congrArg not ?_
      rw [Bool.eq_iff_iff, contains_duplicates_iff hk]
      exact decide_eq_true_iff.symm
    -- a key that is no duplicate has one value
    have hone : ∀ k ∈ e.texts.keys.filter fun k => !several k, (literals table k lines).length = 1 := by
      intro k hk
      obtain ⟨hkey, hfew⟩ := List.mem_filter.1 hk
      have hsome : literals table k lines ≠ [] := by
        refine literals_ne_nil ?_
        rwa [keys_valuesByKey, ← keys_texts]
      have hpos := List.length_pos_iff.2 hsome
      have hshort : ¬2 ≤ (literals table k lines).length := by simpa [several] using hfew
      omega
    rw [hsame, List.map_congr_left hone, List.map_const', List.sum_replicate_nat, Nat.mul_one]
  have hsplit := (List.filter_append_perm several e.texts.keys).map
    fun k => (literals table k lines).length
  rw [hseveral, hothers, ← List.sum_append, ← List.map_append, hsplit.sum_eq, keys_texts]
  exact sum_length_literals table lines

/-- The lines of a file are read as what they leave. -/
theorem collects_ofLines (table : Text) (lines : List Text) :
    Collects table lines (Entries.ofLines table lines) where
  keys := keys_texts table lines
  text := get?_ofLines table lines
  duplicates := entries_duplicates_eq table lines
  final := by
    intro entry hentry
    rw [entries_duplicates_eq] at hentry
    obtain ⟨k, -, rfl⟩ := List.mem_map.1 hentry
    exact get?_ofLines table lines k
  count := sum_duplicates_add table lines

end Locale

/-- Reading a file that has a text gives what its lines leave: the last assignment of a key is its text,
and the keys that are assigned several times come with all of their values. -/
theorem Scanner.entries_collects {d : Disk} {path t : Text} (s : Scanner)
    (h : Files.HasText d path t) :
    ∃ e, Job.Yields d (s.entries path) e ∧
      Locale.Collects s.patterns.table (Text.lines t) e :=
  ⟨s.entriesOf t, s.entries_yields h, Locale.collects_ofLines _ _⟩

/-- A key that is assigned in three spellings, with another key and a line of code in between, keeps the
first spelling and all of its values. -/
theorem Scanner.entries_collects_spellings :
    let lines := ["L[\"Name\"] = \"a\"".toList, "L[\"Sum\"] = \"b\"".toList, "print(L)".toList,
      "  L[\"NAME\"] = \"c\"".toList, "L[\"name\"] = \"c\"".toList]
    let d : Disk := ⟨[(["a.lua".toList], .file (Text.encode (Text.joinLines lines ['\n'])))], []⟩
    Files.HasText d "a.lua".toList (Text.joinLines lines ['\n']) ∧
      ∃ e, Job.Yields d (Scanner.entries ⟨⟨"L".toList, []⟩, 100⟩ "a.lua".toList) e ∧
        e.texts.keys = ["Name".toList, "Sum".toList] ∧
        e.texts.get? "name".toList = some "c".toList ∧
        e.duplicates.values = [⟨"Name".toList, ["a".toList, "c".toList, "c".toList]⟩] := by
  intro lines d
  have htext : Files.HasText d "a.lua".toList (Text.joinLines lines ['\n']) :=
    ⟨_, _, rfl, Text.decode_encode _, by decide +kernel⟩
  obtain ⟨e, hread, hcollects⟩ := entries_collects ⟨⟨"L".toList, []⟩, 100⟩ htext
  have hkeys : e.texts.keys = ["Name".toList, "Sum".toList] := by
    rw [hcollects.keys]
    decide +kernel
  refine ⟨htext, e, hread, hkeys, ?_, ?_⟩
  · rw [hcollects.text]
    decide +kernel
  · rw [Lexicon.values, hcollects.duplicates, hkeys]
    decide +kernel

end Phrasebook
