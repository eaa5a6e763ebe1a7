import Phrasebook.Proofs.Key.Lexicon
import Phrasebook.Proofs.Key.Set

/-!
# Unions of keys

A union has the keys of the first set, and behind them those of the second that the first one lacks.
Unions are therefore associative, with the order and the spelling of the keys. The keys of a map are
such a set, and a map is known by its keys and by what it finds for each of them.
-/

namespace Phrasebook

namespace KeySet

variable {s t u : KeySet} {key : Text}

/-- A set with one more key lists it last, unless it is known. -/
theorem keys_insert (s : KeySet) (key : Text) :
    (s.insert key).keys = if s.contains key then s.keys else s.keys ++ [key] := by
  unfold insert
  split <;> rfl

/-- Several distinct keys come behind those of the set, in their order and without the known
ones. -/
theorem keys_insertAll {keys : List Text} (hkeys : (keys.map Text.fold).Nodup) (s : KeySet) :
    (s.insertAll keys).keys = s.keys ++ keys.filter fun key => !s.contains key := by
  induction keys generalizing s with
  | nil => simp [insertAll]
  | cons key keys ih =>
    obtain ⟨hnew, hrest⟩ := List.nodup_cons.1 hkeys
    have hstep : s.insertAll (key :: keys) = (s.insert key).insertAll keys := rfl
    have hsame : (keys.filter fun k => !(s.insert key).contains k) =
        keys.filter fun k => !s.contains k := by
      refine List.filter_congr fun k hk => ?_
      have hne : Text.fold key ≠ Text.fold k := fun h => hnew (h ▸ List.mem_map_of_mem hk)
      simp [contains_insert, hne]
    rw [hstep, ih hrest, hsame, keys_insert, List.filter_cons]
    by_cases hknown : s.contains key = true
    · simp [hknown]
    · simp [hknown]

/-- The set of the keys of a set is the set. -/
theorem ofList_keys (s : KeySet) : ofList s.keys = s := by
  apply ext_keys
  have hall := keys_insertAll s.distinct ∅
  simp only [contains_empty, Bool.not_false, List.filter_true] at hall
  exact hall

/-- A union lists the keys of the first set, then those of the second that the first one lacks. -/
theorem keys_union (s t : KeySet) :
    (s.union t).keys = s.keys ++ t.keys.filter fun key => !s.contains key :=
  keys_insertAll t.distinct s

/-- A union has the keys of both sets. -/
theorem contains_union (s t : KeySet) (key : Text) :
    (s.union t).contains key = (s.contains key || t.contains key) := by
  rw [Bool.eq_iff_iff, Bool.or_eq_true, union, contains_insertAll, contains_iff (s := t)]

/-- Nothing is added to a set of no keys but the keys of the other set. -/
theorem empty_union (s : KeySet) : union ∅ s = s := by
  apply ext_keys
  rw [keys_union]
  simp only [contains_empty, Bool.not_false, List.filter_true]
  rfl

/-- Unions are associative, with the order and the spelling of the keys. -/
theorem union_assoc (s t u : KeySet) : (s.union t).union u = s.union (t.union u) := by
  apply ext_keys
  simp only [keys_union, contains_union, List.filter_append, List.filter_filter, Bool.not_or,
    List.append_assoc]

end KeySet

namespace Lexicon

variable {V W : Type}

/-- The keys of a map, as a set. -/
def keySet (m : KeyMap V) : KeySet :=
  ⟨m.keys, m.nodup_keys⟩

/-- Setting the value of a key adds the key to the others. -/
theorem keySet_insert (m : KeyMap V) (key : Text) (value : V) :
    (m.insert key value).keySet = m.keySet.insert key := by
  apply KeySet.ext_keys
  rw [KeySet.keys_insert]
  refine (keys_insert m key value).trans (if_congr ?_ rfl rfl)
  rw [KeySet.contains_iff, List.mem_map]
  rfl

/-- Maps that list the same keys and find the same value for each of them are the same. -/
theorem ext_get? {m n : KeyMap V} (hkeys : m.keys = n.keys)
    (hget : ∀ key, m.get? key = n.get? key) : m = n := by
  have hentries : m.entries = n.entries.map fun e => (e.1, e.2) :=
    entries_eq_map hkeys fun e he =>
      (hget e.1).trans (get?_eq_some_iff.2 ⟨e.1, he, rfl⟩)
  exact ext_entries (hentries.trans (List.map_id _))

end Lexicon

end Phrasebook
