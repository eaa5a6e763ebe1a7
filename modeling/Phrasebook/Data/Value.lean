import Phrasebook.Data.Date
import Phrasebook.Number.Double

/-!
# Data values

Values as configuration files and the answers of services hold them: nothing, truth values,
numbers, texts, dates, lists and maps. The keys of a map are values too.
-/

namespace Phrasebook

/-- A value. -/
inductive Value where
  | null
  | bool (b : Bool)
  | int (i : Int)
  | double (d : Double)
  | text (t : Text)
  | date (d : Date)
  | moment (m : Moment)
  | list (items : List Value)
  | map (entries : List (Value × Value))
  deriving Inhabited

namespace Value

/-- The number that a key counts as: truth values are 0 and 1, and whole doubles are integers. -/
def keyNumber? : Value → Option (Int ⊕ Double)
  | .bool b => some (.inl (if b then 1 else 0))
  | .int i => some (.inl i)
  | .double d =>
    match d.toInt? with
    | some i => some (.inl i)
    | none => some (.inr d)
  | _ => none

/-- Whether a value can be a key. -/
def isKey : Value → Bool
  | .list _ => false
  | .map _ => false
  | _ => true

/-- Whether two keys are the same. -/
def sameKey (a b : Value) : Bool :=
  match a, b with
  | .null, .null => true
  | .text s, .text t => s == t
  | .date s, .date t => s == t
  | .moment s, .moment t => s == t
  | a, b =>
    match a.keyNumber?, b.keyNumber? with
    | some (.inr .nan), _ => false
    | some (.inl i), some (.inl j) => i == j
    | some (.inr x), some (.inr y) => x == y
    | _, _ => false

/-- Set the value of a key in a list of entries. A known key keeps its place and spelling. -/
def setKey (key value : Value) : List (Value × Value) → List (Value × Value)
  | [] => [(key, value)]
  | entry :: rest =>
    if entry.1.sameKey key then (entry.1, value) :: rest else entry :: setKey key value rest

/-- The value of a text key in a map. -/
def get? (v : Value) (key : Text) : Option Value :=
  match v with
  | .map entries => (entries.find? fun entry => entry.1.sameKey (.text key)).map (·.2)
  | _ => none

end Value

end Phrasebook
