import Phrasebook.Key.Set

/-!
# Combining key sets

Two sets are combined to a new one, or one of them is replaced by the combination, key by key. A set
that is combined with itself in place cannot be listed while it loses its keys; it is emptied instead.
-/

namespace Phrasebook

/-- How two sets are combined. -/
inductive SetOperator where
  /-- The keys that both have. -/
  | inter
  /-- The keys that one of them has. -/
  | union
  /-- The keys of the first that the second lacks. -/
  | sdiff
  /-- The keys that just one of them has. -/
  | symmDiff
  deriving DecidableEq, Repr

namespace KeySet

/-- A new set that combines two. -/
def combine (s : KeySet) (op : SetOperator) (t : KeySet) : KeySet :=
  match op with
  | .inter => s.inter t
  | .union => s.union t
  | .sdiff => s.sdiff t
  | .symmDiff => s.symmDiff t

/-- The set without one of its keys is smaller. -/
theorem size_erase_lt {s : KeySet} {key : Text} (h : key ∈ s.keys) : (s.erase key).size < s.size :=
  List.length_filter_lt_length_iff_exists.2 ⟨key, h, by simp⟩

/-- The set after its first key was taken for as long as there was one. -/
def popAll (s : KeySet) : KeySet :=
  match _hpopped : s.popFirst? with
  | none => s
  | some popped => popped.2.popAll
termination_by s.size
decreasing_by
  obtain ⟨key, hkey, rfl⟩ := Option.map_eq_some_iff.1 _hpopped
  exact size_erase_lt (List.mem_of_head? hkey)

/-- The set after it took in another one. -/
def assign (s : KeySet) (op : SetOperator) (t : KeySet) : KeySet :=
  match op with
  | .inter => s.retain t
  | .union => s.union t
  | .sdiff => s.eraseAll t.keys
  | .symmDiff => s.toggleAll t

/-- The set after it took in itself. -/
def assignSelf (s : KeySet) (op : SetOperator) : KeySet :=
  match op with
  | .inter => s.retain s
  | .union => s.union s
  | .sdiff => s.popAll
  | .symmDiff => s.popAll

end KeySet

end Phrasebook
