import Phrasebook.Text.Fold
import Phrasebook.Text.Quoted

/-!
# Lexicons

A lexicon maps keys to values and keeps its entries in the order in which their keys came. Two
spellings are the same key when a normal form says so, and an entry keeps the spelling that came
first. The entries have pairwise distinct normal forms; the type carries the proof.
-/

namespace Phrasebook

variable {norm : Text → Text} {V : Type}

/-- An ordered map whose keys are compared by a normal form. -/
structure Lexicon (norm : Text → Text) (V : Type) where
  /-- The entries in the order of their keys' first arrival. -/
  entries : List (Text × V)
  /-- No two entries have the same normal form. -/
  distinct : (entries.map fun entry => norm entry.1).Nodup

/-- A map whose keys are compared up to case. -/
abbrev KeyMap (V : Type) := Lexicon Text.fold V

/-- A map whose keys are compared as they are. -/
abbrev Dictionary (V : Type) := Lexicon id V

namespace Lexicon

/-- Set the value of a key in a list of entries; a new key comes last. -/
def replace (norm : Text → Text) (key : Text) (value : V) : List (Text × V) → List (Text × V)
  | [] => [(key, value)]
  | entry :: rest =>
    if norm entry.1 = norm key then (entry.1, value) :: rest
    else entry :: replace norm key value rest

/-- Setting a value adds the normal form of its key when it is new, and changes none. -/
theorem map_replace (key : Text) (value : V) (entries : List (Text × V)) :
    (replace norm key value entries).map (fun entry => norm entry.1) =
      entries.map (fun entry => norm entry.1) ++
        if norm key ∈ entries.map (fun entry => norm entry.1) then [] else [norm key] := by
  induction entries with
  | nil => simp [replace]
  | cons entry rest ih =>
    by_cases h : norm entry.1 = norm key
    · simp [replace, h]
    · simp only [replace, h, if_false, List.map_cons, ih, List.mem_cons, Ne.symm h, false_or,
        List.cons_append]

/-- Setting a value keeps the normal forms distinct. -/
theorem nodup_replace {key : Text} {value : V} {entries : List (Text × V)}
    (h : (entries.map fun entry => norm entry.1).Nodup) :
    ((replace norm key value entries).map fun entry => norm entry.1).Nodup := by
  rw [map_replace]
  split
  · simpa using h
  · rename_i hnew
    refine List.nodup_append.2 ⟨h, by simp, ?_⟩
    intro a ha b hb hab
    simp only [List.mem_singleton] at hb
    exact hnew (hb ▸ hab ▸ ha)

/-- The lexicon without entries. -/
def empty : Lexicon norm V :=
  ⟨[], List.nodup_nil⟩

instance : Inhabited (Lexicon norm V) :=
  ⟨empty⟩

instance : EmptyCollection (Lexicon norm V) :=
  ⟨empty⟩

/-- The number of entries. -/
def size (m : Lexicon norm V) : Nat :=
  m.entries.length

/-- Whether there is no entry. -/
def isEmpty (m : Lexicon norm V) : Bool :=
  m.entries.isEmpty

/-- The keys in order, each in its remembered spelling. -/
def keys (m : Lexicon norm V) : List Text :=
  m.entries.map (·.1)

/-- The values in the order of their keys. -/
def values (m : Lexicon norm V) : List V :=
  m.entries.map (·.2)

/-- The entry of a key: its remembered spelling and its value. -/
def find? (m : Lexicon norm V) (key : Text) : Option (Text × V) :=
  m.entries.find? fun entry => norm entry.1 = norm key

/-- The value of a key. -/
def get? (m : Lexicon norm V) (key : Text) : Option V :=
  (m.find? key).map (·.2)

/-- The remembered spelling of a key. -/
def spelling? (m : Lexicon norm V) (key : Text) : Option Text :=
  (m.find? key).map (·.1)

/-- Whether a key has an entry. -/
def contains (m : Lexicon norm V) (key : Text) : Bool :=
  (m.find? key).isSome

/-- Set the value of a key. A known key keeps its spelling and its place; a new one comes last. -/
def insert (m : Lexicon norm V) (key : Text) (value : V) : Lexicon norm V :=
  ⟨replace norm key value m.entries, nodup_replace m.distinct⟩

/-- Set the values of several keys, one after another. -/
def insertAll (m : Lexicon norm V) (pairs : List (Text × V)) : Lexicon norm V :=
  pairs.foldl (fun m pair => m.insert pair.1 pair.2) m

/-- The lexicon that results from setting the given pairs one after another. -/
def ofList (pairs : List (Text × V)) : Lexicon norm V :=
  empty.insertAll pairs

/-- The lexicon of the entries that satisfy a condition. -/
def filter (m : Lexicon norm V) (keep : Text × V → Bool) : Lexicon norm V :=
  ⟨m.entries.filter keep, (List.filter_sublist.map _).nodup m.distinct⟩

/-- The lexicon without the entry of a key. -/
def erase (m : Lexicon norm V) (key : Text) : Lexicon norm V :=
  m.filter fun entry => norm entry.1 ≠ norm key

/-- The lexicon with the value of a key changed, when it has one. -/
def modify (m : Lexicon norm V) (key : Text) (change : V → V) : Lexicon norm V :=
  match m.get? key with
  | none => m
  | some value => m.insert key (change value)

/-- The first entry and the lexicon without it. -/
def popFirst? (m : Lexicon norm V) : Option ((Text × V) × Lexicon norm V) :=
  m.entries.head?.map fun entry => (entry, m.erase entry.1)

/-- The value of a key and the lexicon without it. -/
def pop? (m : Lexicon norm V) (key : Text) : Option (V × Lexicon norm V) :=
  (m.get? key).map fun value => (value, m.erase key)

/-- The value of a key, which is first set to `value` when it has none. -/
def getOrInsert (m : Lexicon norm V) (key : Text) (value : V) : V × Lexicon norm V :=
  match m.get? key with
  | some known => (known, m)
  | none => (value, m.insert key value)

/-- Whether two lexicons hold the same keys in the same spelling with the same values, in whatever
order. -/
def sameEntries [BEq V] (m n : Lexicon norm V) : Bool :=
  m.size == n.size && m.entries.all fun entry =>
    n.entries.any fun other => other.1 == entry.1 && other.2 == entry.2

end Lexicon

/-- The entries of a map in quoted form, between braces. -/
def Lexicon.quoted (m : Lexicon norm Text) : Text :=
  let items := m.entries.map fun entry => Text.quoted entry.1 ++ ": ".toList ++ Text.quoted entry.2
  "KeyMap(\x7b".toList ++ Text.join ", ".toList items ++ "\x7d)".toList

end Phrasebook
