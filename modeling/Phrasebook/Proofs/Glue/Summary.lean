import Phrasebook.Glue.Summary
import Phrasebook.Proofs.Key.Lexicon
import Phrasebook.Proofs.Key.Set

/-!
# The keys of a summary

The summary of a file has the keys that its lines look up. A merge has the keys of both summaries,
since the records of a summary bear the keys under which they are filed, and keys that locale files
use are added to the others.
-/

namespace Phrasebook.Glue.Summary

variable {s other : Summary} {key : Text}

/-- The keys of a summary are those with a record and those that locale files use. -/
theorem contains_keys : s.keys.contains key = true ↔
    s.infos.contains key = true ∨ s.referenced.contains key = true := by
  have hinfos : (KeySet.ofList s.infos.keys).contains key = true ↔
      s.infos.contains key = true := by
    rw [KeySet.contains_ofList, Lexicon.contains_iff]
  rw [keys, KeySet.contains_insertAll, hinfos, KeySet.contains_iff]

/-- The records of a summary bear the keys under which they are filed. -/
def IsKeyed (s : Summary) : Prop :=
  ∀ e ∈ s.infos.entries, Text.fold e.2.key = Text.fold e.1

/-- The record of a key bears that key. -/
theorem IsKeyed.key_getOrNew (h : s.IsKeyed) (key : Text) :
    Text.fold (s.getOrNew key).key = Text.fold key := by
  unfold getOrNew
  cases hget : s.get? key with
  | none => rfl
  | some info =>
    obtain ⟨k, hmem, hk⟩ := Lexicon.get?_eq_some_iff.1 hget
    exact (h _ hmem).trans hk

/-- One more reference leaves the key of a record. -/
theorem key_addReference (path : Text) (line : Nat) (isFirst : Bool) (reference : Reference)
    (info : Info) : (addReference path line isFirst reference info).key = info.key := by
  unfold addReference
  split_ifs <;> rfl

/-- A summary with one more reference files its records under their keys. -/
theorem IsKeyed.addFound (h : s.IsKeyed) (path : Text) (found : Nat × Reference) :
    (s.addFound path found).IsKeyed := by
  intro e he
  rcases Lexicon.mem_entries_of_mem_insert he with hold | ⟨hkey, hinfo⟩
  · exact h e hold
  · rw [hinfo, key_addReference, h.key_getOrNew]
    exact hkey.symm

/-- What a summary has after several references were added. -/
theorem foldl_addFound (path : Text) (found : List (Nat × Reference)) (hs : s.IsKeyed) :
    (found.foldl (addFound path) s).IsKeyed ∧
      (found.foldl (addFound path) s).referenced = s.referenced ∧
      ((found.foldl (addFound path) s).infos.contains key = true ↔
        s.infos.contains key = true ∨ ∃ f ∈ found, Text.fold f.2.key = Text.fold key) := by
  induction found generalizing s with
  | nil => exact ⟨hs, rfl, by simp⟩
  | cons f found ih =>
    obtain ⟨hkeyed, hreferenced, hcontains⟩ := ih (hs.addFound path f)
    have hinsert : (s.addFound path f).infos.contains key =
        (decide (Text.fold f.2.key = Text.fold key) || s.infos.contains key) :=
      Lexicon.contains_insert _ _ _ _
    refine ⟨hkeyed, hreferenced, ?_⟩
    rw [List.foldl_cons, hcontains, hinsert]
    simp only [Bool.or_eq_true, decide_eq_true_eq, List.mem_cons, exists_eq_or_imp]
    tauto

/-- A summary without records files them under their keys. -/
theorem isKeyed_empty (cap : Int) : (empty cap).IsKeyed :=
  fun _ he => absurd he List.not_mem_nil

/-- The summary of the lines of a file files its records under their keys. -/
theorem isKeyed_ofLines (patterns : Patterns) (cap : Int) (path : Text) (lines : List Text) :
    (ofLines patterns cap path lines).IsKeyed :=
  (@foldl_addFound _ [] path (findAll patterns lines) (isKeyed_empty cap)).1

/-- The summary of the lines of a file has the keys that the lines look up. -/
theorem contains_keys_ofLines (patterns : Patterns) (cap : Int) (path : Text)
    (lines : List Text) : (ofLines patterns cap path lines).keys.contains key = true ↔
      ∃ line ∈ lines, ∃ r ∈ references patterns line, Text.fold r.key = Text.fold key := by
  obtain ⟨-, hreferenced, hcontains⟩ :=
    @foldl_addFound _ key path (findAll patterns lines) (isKeyed_empty cap)
  have hlines : (∃ f ∈ findAll patterns lines, Text.fold f.2.key = Text.fold key) ↔
      ∃ line ∈ lines, ∃ r ∈ references patterns line, Text.fold r.key = Text.fold key := by
    constructor
    · rintro ⟨f, hf, hk⟩
      obtain ⟨⟨line, number⟩, hline, hf⟩ := List.mem_flatMap.1 hf
      obtain ⟨r, hr, rfl⟩ := List.mem_map.1 hf
      exact ⟨line, (List.mem_zipIdx hline).2.2 ▸ List.getElem_mem _, r, hr, hk⟩
    · rintro ⟨line, hline, r, hr, hk⟩
      obtain ⟨i, hi, rfl⟩ := List.getElem_of_mem hline
      exact ⟨(1 + i, r), List.mem_flatMap.2 ⟨(lines[i], 1 + i),
        List.mk_mem_zipIdx_iff_le_and_getElem?_sub.2 ⟨by omega, by simp [hi]⟩,
        List.mem_map.2 ⟨r, hr, rfl⟩⟩, hk⟩
  have hempty : (empty cap).infos.contains key = false := rfl
  have hnone : (ofLines patterns cap path lines).referenced.contains key = false := by
    rw [ofLines, hreferenced]
    rfl
  rw [contains_keys, hnone, ofLines, hcontains, hempty, hlines]
  simp

/-- A merge has the keys of both summaries. -/
theorem contains_keys_merge (h : other.IsKeyed) :
    (s.merge other).keys.contains key = true ↔
      s.keys.contains key = true ∨ other.keys.contains key = true := by
  have hfold : ∀ (infos : List Info) (s : Summary),
      ((infos.foldl mergeInfo s).infos.contains key = true ↔
        s.infos.contains key = true ∨ ∃ info ∈ infos, Text.fold info.key = Text.fold key) ∧
      (infos.foldl mergeInfo s).referenced = s.referenced := by
    intro infos
    induction infos with
    | nil => simp
    | cons info infos ih =>
      intro s
      obtain ⟨hinfos, hreferenced⟩ := ih (s.mergeInfo info)
      have hinsert : (s.mergeInfo info).infos.contains key =
          (decide (Text.fold info.key = Text.fold key) || s.infos.contains key) :=
        Lexicon.contains_insert _ _ _ _
      refine ⟨?_, hreferenced⟩
      rw [List.foldl_cons, hinfos, hinsert]
      simp only [Bool.or_eq_true, decide_eq_true_eq, List.mem_cons, exists_eq_or_imp]
      tauto
  obtain ⟨hinfos, hreferenced⟩ := hfold other.all s
  have hall : (∃ info ∈ other.all, Text.fold info.key = Text.fold key) ↔
      other.infos.contains key = true := by
    rw [Lexicon.contains_iff]
    simp only [all, Lexicon.values, Lexicon.keys, List.mem_map]
    constructor
    · rintro ⟨_, ⟨e, he, rfl⟩, hk⟩
      exact ⟨e.1, ⟨e, he, rfl⟩, (h e he).symm.trans hk⟩
    · rintro ⟨_, ⟨e, he, rfl⟩, hk⟩
      exact ⟨e.2, ⟨e, he, rfl⟩, (h e he).trans hk⟩
  rw [contains_keys, contains_keys, contains_keys, merge, hinfos, hall,
    KeySet.contains_insertAll, hreferenced, ← KeySet.contains_iff]
  tauto

/-- Keys that locale files use come in addition. -/
theorem contains_keys_addReferenced {keys : List Text} :
    (s.addReferenced keys).keys.contains key = true ↔
      s.keys.contains key = true ∨ ∃ k ∈ keys, Text.fold k = Text.fold key := by
  rw [contains_keys, contains_keys, addReferenced, KeySet.contains_insertAll, or_assoc]

/-- Attached specifiers leave the keys. -/
theorem contains_keys_attach (specifiers : KeyMap (List Format.Specifier)) :
    (s.attach specifiers).keys.contains key = s.keys.contains key := by
  have hmodify : ∀ (infos : KeyMap Info) (k : Text) (change : Info → Info),
      (infos.modify k change).contains key = infos.contains key := by
    intro infos k change
    unfold Lexicon.modify
    cases hget : infos.get? k with
    | none => rfl
    | some info =>
      rw [Lexicon.contains_insert]
      by_cases hk : Text.fold k = Text.fold key
      · rw [Lexicon.contains_eq_isSome, ← Lexicon.get?_congr infos hk, hget]
        simp
      · simp [hk]
  have hfold : ∀ (entries : List (Text × List Format.Specifier)) (infos : KeyMap Info),
      (entries.foldl (fun infos entry => infos.modify entry.1 fun info =>
        { info with specifiers := entry.2 }) infos).contains key = infos.contains key := by
    intro entries
    induction entries with
    | nil => exact fun _ => rfl
    | cons entry entries ih => exact fun infos => (ih _).trans (hmodify _ _ _)
  rw [Bool.eq_iff_iff, contains_keys, contains_keys, attach, hfold]

end Phrasebook.Glue.Summary
