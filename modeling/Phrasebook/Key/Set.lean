import Phrasebook.Key.Lexicon
import Phrasebook.Key.Order

/-!
# Key sets

Sets of keys compared up to case. A set keeps its keys in the order of their arrival and in the
spelling that came first. The operators follow from membership: a key of a combination keeps the
spelling of the operand that it is taken from.
-/

namespace Phrasebook

/-- A set of keys compared up to case. -/
structure KeySet where
  /-- The keys in order of arrival. -/
  keys : List Text
  /-- No two keys fold to the same text. -/
  distinct : (keys.map Text.fold).Nodup

namespace KeySet

/-- The set without keys. -/
def empty : KeySet :=
  ⟨[], List.nodup_nil⟩

instance : Inhabited KeySet :=
  ⟨empty⟩

instance : EmptyCollection KeySet :=
  ⟨empty⟩

/-- The number of keys. -/
def size (s : KeySet) : Nat :=
  s.keys.length

/-- Whether a set has no key. -/
def isEmpty (s : KeySet) : Bool :=
  s.keys.isEmpty

/-- Whether a key belongs to a set, in whatever spelling. -/
def contains (s : KeySet) (key : Text) : Bool :=
  (s.keys.map Text.fold).contains (Text.fold key)

/-- The set with one more key, which comes last; a known key changes nothing. -/
def insert (s : KeySet) (key : Text) : KeySet :=
  if h : s.contains key then s
  else ⟨s.keys ++ [key], by
    simp only [contains, List.contains_eq_mem, decide_eq_true_eq] at h
    rw [List.map_append, List.nodup_append]
    refine ⟨s.distinct, by simp, ?_⟩
    intro a ha b hb hab
    simp only [List.map_cons, List.map_nil, List.mem_singleton] at hb
    exact h (hb ▸ hab ▸ ha)⟩

/-- The set with several more keys, taken one after another. -/
def insertAll (s : KeySet) (keys : List Text) : KeySet :=
  keys.foldl insert s

/-- The set of the given keys. -/
def ofList (keys : List Text) : KeySet :=
  empty.insertAll keys

/-- The set of the keys that satisfy a condition. -/
def filter (s : KeySet) (keep : Text → Bool) : KeySet :=
  ⟨s.keys.filter keep, (List.filter_sublist.map _).nodup s.distinct⟩

/-- The set without a key. -/
def erase (s : KeySet) (key : Text) : KeySet :=
  s.filter fun other => Text.fold other ≠ Text.fold key

/-- The set without several keys, dropped one after another. -/
def eraseAll (s : KeySet) (keys : List Text) : KeySet :=
  keys.foldl erase s

/-- The first key and the set without it. -/
def popFirst? (s : KeySet) : Option (Text × KeySet) :=
  s.keys.head?.map fun key => (key, s.erase key)

/-- The keys of the second set that the first one has. -/
def inter (s t : KeySet) : KeySet :=
  t.filter s.contains

/-- The keys of the first set, then those of the second. -/
def union (s t : KeySet) : KeySet :=
  s.insertAll t.keys

/-- The keys of the first set that the second one lacks. -/
def sdiff (s t : KeySet) : KeySet :=
  s.filter fun key => !t.contains key

/-- The keys that one of the sets has and the other lacks. -/
def symmDiff (s t : KeySet) : KeySet :=
  (s.sdiff t).union (t.sdiff s)

/-- Keep the keys that the other set has, each in the spelling of `s`. -/
def retain (s t : KeySet) : KeySet :=
  s.eraseAll (s.sdiff t).keys

/-- Drop a key that the set has, add one that it lacks. -/
def toggle (s : KeySet) (key : Text) : KeySet :=
  if s.contains key then s.erase key else s.insert key

/-- Toggle every key of the other set. -/
def toggleAll (s t : KeySet) : KeySet :=
  t.keys.foldl toggle s

/-- Whether every key of the first set belongs to the second. -/
def isSubset (s t : KeySet) : Bool :=
  s.size ≤ t.size && s.keys.all t.contains

/-- Whether the first set is a proper subset of the second. -/
def isProperSubset (s t : KeySet) : Bool :=
  s.size < t.size && s.isSubset t

/-- Whether two sets have the same keys. -/
def sameKeys (s t : KeySet) : Bool :=
  s.size == t.size && s.isSubset t

/-- Whether two sets have no key in common. -/
def isDisjoint (s t : KeySet) : Bool :=
  t.keys.all fun key => !s.contains key

/-- The keys in key order and quoted form. -/
def quoted (s : KeySet) : Text :=
  "KeySet(".toList ++ Text.quotedList (sortKeys s.keys) ++ [')']

end KeySet

end Phrasebook
