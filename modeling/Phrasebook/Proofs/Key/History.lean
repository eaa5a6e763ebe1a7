import Mathlib.Data.List.Induction
import Mathlib.Tactic.SplitIfs
import Phrasebook.Proofs.Key.Lexicon

/-!
# The history of a map

A map whose keys are compared up to case, told by what has happened to its keys: each time that a key
was set or deleted, the latest change first. Of a key only the settings since its last deletion count.
The first of them gives the spelling and the place of the entry, and the last one the value.
-/

namespace Phrasebook.Lexicon

open Text (fold)

variable {V : Type}

/-- What happens to the keys of a map. -/
inductive Change (V : Type) where
  /-- A key is set to a value. -/
  | set (key : Text) (value : V)
  /-- A key is deleted. -/
  | delete (key : Text)
  /-- All keys are deleted. -/
  | clear

/-- What has happened to the keys of a map, the latest change first. -/
abbrev History (V : Type) := List (Change V)

/-- One time that a key was set. -/
structure Setting (V : Type) where
  /-- The number of changes before. -/
  time : Nat
  /-- The spelling of the key. -/
  key : Text
  /-- The value. -/
  value : V

namespace History

/-- The settings of a key since its last deletion, the latest one first. -/
def settings (key : Text) : History V → List (Setting V)
  | [] => []
  | .set k value :: before =>
    if fold k = fold key then ⟨before.length, k, value⟩ :: settings key before
    else settings key before
  | .delete k :: before => if fold k = fold key then [] else settings key before
  | .clear :: _ => []

/-- The first setting of a key since its last deletion. -/
def first? (h : History V) (key : Text) : Option (Setting V) :=
  (settings key h).getLast?

/-- The last setting of a key since its last deletion. -/
def last? (h : History V) (key : Text) : Option (Setting V) :=
  (settings key h).head?

variable {h : History V} {k key : Text} {s : Setting V}

/-- Which settings count for a key depends on its folded form only. -/
theorem settings_congr (hk : fold k = fold key) (h : History V) :
    settings k h = settings key h := by
  induction h with
  | nil => rfl
  | cons change before ih => cases change <;> simp only [settings, hk, ih]

/-- The first setting of a key depends on its folded form only. -/
theorem first?_congr (hk : fold k = fold key) (h : History V) : first? h k = first? h key := by
  rw [first?, settings_congr hk, first?]

/-- A key was set for the first time exactly when it was set for the last time. -/
theorem first?_eq_none_iff : first? h key = none ↔ last? h key = none := by
  rw [first?, last?, List.getLast?_eq_none_iff, List.head?_eq_none_iff]

/-- After a key is set, that is its last setting. -/
theorem last?_set (value : V) :
    last? (.set k value :: h) key =
      if fold k = fold key then some ⟨h.length, k, value⟩ else last? h key := by
  unfold last?
  rw [settings]
  split_ifs <;> rfl

/-- The first setting of a key stays, and is the new one when there was none. -/
theorem first?_set (value : V) :
    first? (.set k value :: h) key =
      if fold k = fold key then some ((first? h key).getD ⟨h.length, k, value⟩)
      else first? h key := by
  unfold first?
  rw [settings]
  split_ifs
  · rw [List.getLast?_cons]
  · rfl

/-- After a key is deleted, its last setting is gone. -/
theorem last?_delete :
    last? (.delete k :: h) key = if fold k = fold key then none else last? h key := by
  unfold last?
  rw [settings]
  split_ifs <;> rfl

/-- After a key is deleted, its first setting is gone. -/
theorem first?_delete :
    first? (.delete k :: h) key = if fold k = fold key then none else first? h key := by
  unfold first?
  rw [settings]
  split_ifs <;> rfl

/-- A setting is older than the changes that follow. -/
theorem time_lt_of_mem_settings (hs : s ∈ settings key h) : s.time < h.length := by
  induction h with
  | nil => simp [settings] at hs
  | cons change before ih =>
    rw [List.length_cons]
    cases change with
    | set k value =>
      rw [settings] at hs
      split_ifs at hs
      · rcases List.mem_cons.1 hs with rfl | hs
        · exact Nat.lt_succ_self _
        · exact Nat.lt_succ_of_lt (ih hs)
      · exact Nat.lt_succ_of_lt (ih hs)
    | delete k =>
      rw [settings] at hs
      split_ifs at hs
      · simp at hs
      · exact Nat.lt_succ_of_lt (ih hs)
    | clear => simp [settings] at hs

/-- The first setting of a key is older than the changes that follow. -/
theorem time_lt_of_first? (hs : first? h key = some s) : s.time < h.length :=
  time_lt_of_mem_settings (List.mem_of_getLast? hs)

/-- The entry that a history leaves for a key: the first spelling since the last deletion with the
last value. -/
def kept? (h : History V) (key : Text) : Option (Text × V) :=
  (first? h key).bind fun s => (last? h key).map fun t => (s.key, t.value)

/-- One key was first set before another. -/
def IsBefore (h : History V) (k key : Text) : Prop :=
  ∃ s ∈ first? h k, ∃ t ∈ first? h key, s.time < t.time

/-- A key that was set has an entry with its last value. -/
theorem kept?_eq_some (hs : first? h key = some s) {t : Setting V} (ht : last? h key = some t) :
    kept? h key = some (s.key, t.value) := by
  rw [kept?, hs, ht, Option.bind_some, Option.map_some]

/-- A key that was not set has no entry. -/
theorem kept?_eq_none_iff : kept? h key = none ↔ last? h key = none := by
  constructor
  · intro hnone
    cases hs : first? h key with
    | none => exact first?_eq_none_iff.1 hs
    | some s => simpa [kept?, hs] using hnone
  · intro hnone
    rw [kept?, hnone, first?_eq_none_iff.2 hnone, Option.bind_none]

/-- The value of the entry that a history leaves is the last one. -/
theorem map_snd_kept? (h : History V) (key : Text) :
    (kept? h key).map (·.2) = (last? h key).map (·.value) := by
  cases ht : last? h key with
  | none => rw [kept?_eq_none_iff.2 ht, Option.map_none, Option.map_none]
  | some t =>
    have hfirst : first? h key ≠ none := fun hnone => by simp [first?_eq_none_iff.1 hnone] at ht
    obtain ⟨s, hs⟩ := Option.ne_none_iff_exists'.1 hfirst
    rw [kept?_eq_some hs ht, Option.map_some, Option.map_some]

/-- The order of keys that were first set before one another is not changed by a setting. -/
theorem IsBefore.set {j : Text} (hbefore : IsBefore h j key) (value : V) :
    IsBefore (.set k value :: h) j key := by
  have hkept : ∀ {i s}, first? h i = some s → first? (.set k value :: h) i = some s := by
    intro i s hs
    rw [first?_set, hs, Option.getD_some, ite_self]
  obtain ⟨s, hs, t, ht, hlt⟩ := hbefore
  exact ⟨s, hkept hs, t, hkept ht, hlt⟩

/-- The order of keys that stay is not changed by a deletion. -/
theorem IsBefore.delete {j : Text} (hbefore : IsBefore h j key) (hj : fold k ≠ fold j)
    (hkey : fold k ≠ fold key) : IsBefore (.delete k :: h) j key := by
  unfold IsBefore
  rw [first?_delete, if_neg hj, first?_delete, if_neg hkey]
  exact hbefore

end History

open History (kept? first? last? IsBefore)

/-- A map has what a history leaves. -/
structure Represents (m : KeyMap V) (h : History V) : Prop where
  /-- Each key is found in its first spelling, with its last value. -/
  find : ∀ key, m.find? key = kept? h key
  /-- The keys stand in the order in which they were first set. -/
  order : m.keys.Pairwise (IsBefore h)

/-- After listed pairs are set, a key is found in its first spelling with its last value. -/
theorem find?_ofList {norm : Text → Text} (pairs : List (Text × V)) (key : Text) :
    (ofList pairs : Lexicon norm V).find? key =
      (pairs.filter fun p => norm p.1 = norm key).head?.bind fun first =>
        (pairs.filter fun p => norm p.1 = norm key).getLast?.map fun last =>
          (first.1, last.2) := by
  induction pairs using List.reverseRecOn generalizing key with
  | nil => rfl
  | append_singleton pairs p ih =>
    have hstep : (ofList (pairs ++ [p]) : Lexicon norm V) = (ofList pairs).insert p.1 p.2 := by
      simp [ofList, insertAll]
    rw [hstep, find?_insert, spelling?, ih, ih, List.filter_append]
    by_cases h : norm p.1 = norm key
    · rw [if_pos h, h]
      cases hfirst : (pairs.filter fun q => norm q.1 = norm key) with
      | nil => simp [h]
      | cons first rest => simp [h, List.getLast?_cons]
    · simp [h]

/-- What is found after a key is deleted. -/
theorem find?_erase {norm : Text → Text} (m : Lexicon norm V) (key key' : Text) :
    (m.erase key).find? key' = if norm key = norm key' then none else m.find? key' := by
  rw [find?, erase, filter, List.find?_filter]
  split_ifs with h
  · rw [List.find?_eq_none]
    intro e _
    simp [h]
  · rw [find?]
    congr 1
    ext e
    by_cases he : norm e.1 = norm key' <;> simp [he, Ne.symm h]

namespace Represents

variable {m : KeyMap V} {h : History V}

/-- The map without entries has what an empty history leaves. -/
theorem empty : Represents (∅ : KeyMap V) [] :=
  ⟨fun _ => rfl, List.Pairwise.nil⟩

/-- The value of a key is the last one that it was set to. -/
theorem get? (hm : Represents m h) (key : Text) :
    m.get? key = (last? h key).map (·.value) := by
  rw [Lexicon.get?, hm.find, History.map_snd_kept?]

/-- The spelling of a key is that of its first setting. -/
theorem spelling? (hm : Represents m h) (key : Text) :
    m.spelling? key = (first? h key).map (·.key) := by
  rw [Lexicon.spelling?, hm.find]
  cases hs : first? h key with
  | none => simp [kept?, hs]
  | some s =>
    have hlast : last? h key ≠ none := fun hnone => by
      simp [History.first?_eq_none_iff.2 hnone] at hs
    obtain ⟨t, ht⟩ := Option.ne_none_iff_exists'.1 hlast
    rw [History.kept?_eq_some hs ht, Option.map_some, Option.map_some]

/-- A key of the map was set. -/
theorem exists_first? (hm : Represents m h) {key : Text} (hkey : key ∈ m.keys) :
    ∃ s, first? h key = some s := by
  obtain ⟨e, he, rfl⟩ := List.mem_map.1 hkey
  have hfound : m.find? e.1 = some e := find?_eq_some_iff.2 ⟨he, rfl⟩
  cases hs : first? h e.1 with
  | none =>
    rw [hm.find, History.kept?_eq_none_iff.2 (History.first?_eq_none_iff.1 hs)] at hfound
    simp at hfound
  | some s => exact ⟨s, rfl⟩

/-- Setting a value is a setting of its key. -/
theorem insert (hm : Represents m h) (key : Text) (value : V) :
    Represents (m.insert key value) (.set key value :: h) := by
  constructor
  · intro key'
    rw [find?_insert]
    by_cases hk : fold key = fold key'
    · have hfirst : first? (.set key value :: h) key' =
          some ((first? h key).getD ⟨h.length, key, value⟩) := by
        rw [History.first?_set, if_pos hk, History.first?_congr hk]
      have hlast : last? (.set key value :: h) key' = some ⟨h.length, key, value⟩ := by
        rw [History.last?_set, if_pos hk]
      rw [if_pos hk, History.kept?_eq_some hfirst hlast, hm.spelling?]
      cases first? h key <;> rfl
    · rw [if_neg hk, hm.find, kept?, kept?, History.first?_set, History.last?_set, if_neg hk,
        if_neg hk]
  · have hold : m.keys.Pairwise (IsBefore (.set key value :: h)) :=
      hm.order.imp fun hbefore => hbefore.set value
    rw [keys_insert]
    split_ifs with hknown
    · exact hold
    · refine List.pairwise_append.2 ⟨hold, List.pairwise_singleton _ _, ?_⟩
      intro k hk key' hkey'
      obtain rfl := List.mem_singleton.1 hkey'
      obtain ⟨s, hs⟩ := hm.exists_first? hk
      have hne : fold key' ≠ fold k := fun hsame => hknown (hsame ▸ List.mem_map_of_mem hk)
      have hnew : first? h key' = none := by
        cases ht : first? h key' with
        | none => rfl
        | some t =>
          have hspelled := hm.spelling? key'
          rw [ht, Option.map_some, Lexicon.spelling?, Option.map_eq_some_iff] at hspelled
          obtain ⟨e, he, -⟩ := hspelled
          obtain ⟨hmem, hfold⟩ := find?_eq_some_iff.1 he
          exact absurd (hfold ▸ List.mem_map_of_mem (List.mem_map_of_mem hmem)) hknown
      refine ⟨s, ?_, ⟨h.length, key', value⟩, ?_, History.time_lt_of_first? hs⟩
      · rw [History.first?_set, if_neg hne, hs, Option.mem_some_iff]
      · rw [History.first?_set, if_pos rfl, hnew, Option.getD_none, Option.mem_some_iff]

/-- Dropping an entry is a deletion of its key. -/
theorem erase (hm : Represents m h) (key : Text) :
    Represents (m.erase key) (.delete key :: h) := by
  constructor
  · intro key'
    rw [find?_erase, kept?, History.first?_delete, History.last?_delete]
    split_ifs
    · rfl
    · exact hm.find key'
  · have hkeys : (m.erase key).keys = m.keys.filter fun k => fold k ≠ fold key := by
      rw [keys, keys, List.filter_map]
      rfl
    rw [hkeys]
    refine (hm.order.filter _).imp_of_mem fun {k k'} hk hk' hbefore => ?_
    have hne : ∀ {j}, j ∈ m.keys.filter (fun k => fold k ≠ fold key) → fold key ≠ fold j :=
      fun hj hsame => of_decide_eq_true (List.mem_filter.1 hj).2 hsame.symm
    exact hbefore.delete (hne hk) (hne hk')

/-- A cleared map is one of which all keys were deleted. -/
theorem clear (h : History V) : Represents (∅ : KeyMap V) (.clear :: h) :=
  ⟨fun _ => rfl, List.Pairwise.nil⟩

/-- Setting several values is a setting of each key, one after another. -/
theorem insertAll (hm : Represents m h) (pairs : List (Text × V)) :
    Represents (m.insertAll pairs) ((pairs.map fun p => .set p.1 p.2).reverse ++ h) := by
  induction pairs generalizing m h with
  | nil => exact hm
  | cons p pairs ih =>
    have hstep : m.insertAll (p :: pairs) = (m.insert p.1 p.2).insertAll pairs := rfl
    rw [hstep, List.map_cons, List.reverse_cons, List.append_assoc, List.singleton_append]
    exact ih (hm.insert p.1 p.2)

end Represents

end Phrasebook.Lexicon
