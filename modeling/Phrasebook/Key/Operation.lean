import Phrasebook.Key.Lexicon

/-!
# Operations on maps

What can be asked of a map whose keys are compared up to case, and what it answers. The operations are
made of the basic ones: finding a key, setting its value, dropping its entry, and listing the keys.
-/

namespace Phrasebook

variable {norm : Text → Text} {V : Type}

namespace Lexicon

/-- The keys in order, each with the value that is found for it. -/
def items (m : Lexicon norm V) : List (Text × V) :=
  m.keys.filterMap fun key => (m.get? key).map fun value => (key, value)

/-- The lexicon that is made anew of the listed keys and their values. -/
def copy (m : Lexicon norm V) : Lexicon norm V :=
  ofList m.items

/-- The lexicon without the entry of a known key is smaller. -/
theorem size_erase_lt {m : Lexicon norm V} {entry : Text × V} (h : entry ∈ m.entries) :
    (m.erase entry.1).size < m.size :=
  List.length_filter_lt_length_iff_exists.2 ⟨entry, h, by simp⟩

/-- The lexicon after its first entry was taken for as long as there was one. -/
def popAll (m : Lexicon norm V) : Lexicon norm V :=
  match _hpopped : m.popFirst? with
  | none => m
  | some popped => popped.2.popAll
termination_by m.size
decreasing_by
  obtain ⟨entry, hentry, rfl⟩ := Option.map_eq_some_iff.1 _hpopped
  exact size_erase_lt (List.mem_of_head? hentry)

end Lexicon

/-- What can be asked of a map. -/
inductive Operation (V : Type) where
  /-- The value of a key, if it has one. -/
  | get (key : Text)
  /-- The value of a key. -/
  | item (key : Text)
  /-- Set the value of a key. -/
  | set (key : Text) (value : V)
  /-- Drop the entry of a key. -/
  | delete (key : Text)
  /-- Take the value of a key out of the map. There may be a default for a missing key, which may be
  that nothing is found. -/
  | pop (key : Text) (default? : Option (Option V))
  /-- Take the first entry out of the map. -/
  | popItem
  /-- The value of a key, which is set when the key has none. -/
  | setDefault (key : Text) (value : V)
  /-- Set the values of several keys, one after another. -/
  | update (pairs : List (Text × V))
  /-- Drop every entry. -/
  | clear
  /-- Go on with a copy. -/
  | copy
  deriving DecidableEq, Repr

/-- What a map answers. -/
inductive Answer (V : Type) where
  /-- There is nothing to tell. -/
  | done
  /-- The value that was found, if any. -/
  | found (value? : Option V)
  /-- A value. -/
  | value (value : V)
  /-- An entry. -/
  | item (key : Text) (value : V)
  /-- The operation failed: a key, in its folded form, has no entry, or there is no entry at all. -/
  | missing (folded? : Option Text)
  deriving DecidableEq, Repr

namespace Lexicon

/-- The answer to an operation, and the map after it. -/
def perform (m : KeyMap V) : Operation V → Answer V × KeyMap V
  | .get key => (.found (m.get? key), m)
  | .item key =>
    match m.get? key with
    | some value => (.value value, m)
    | none => (.missing (some (Text.fold key)), m)
  | .set key value => (.done, m.insert key value)
  | .delete key =>
    if m.contains key then (.done, m.erase key) else (.missing (some (Text.fold key)), m)
  | .pop key default? =>
    match m.pop? key with
    | some (value, rest) => (.value value, rest)
    | none => (default?.elim (.missing (some (Text.fold key))) .found, m)
  | .popItem =>
    match m.popFirst? with
    | some (entry, rest) => (.item entry.1 entry.2, rest)
    | none => (.missing none, m)
  | .setDefault key value => (m.getOrInsert key value).map .value id
  | .update pairs => (.done, m.insertAll pairs)
  | .clear => (.done, m.popAll)
  | .copy => (.done, m.copy)

/-- The answers to operations, one after another, and the map after them. -/
def run (m : KeyMap V) : List (Operation V) → List (Answer V) × KeyMap V
  | [] => ([], m)
  | op :: ops =>
    let (answer, next) := m.perform op
    let (answers, last) := next.run ops
    (answer :: answers, last)

end Lexicon

end Phrasebook
