import Phrasebook.Number.Shortest
import Phrasebook.Data.Value

/-!
# Problems of settings

What can be wrong with a value of a settings file. All problems are collected, each with the place
of the value: the names of the section and the field, and the number of an item.
-/

namespace Phrasebook

/-- What is wrong with a value. -/
inductive ProblemKind where
  /-- It should be a text. -/
  | notText
  /-- It should not be empty. -/
  | empty
  /-- It should be an address of the web. -/
  | notAddress
  /-- It should be a list. -/
  | notList
  /-- It should be an integer. -/
  | notInt
  /-- It should be the text of an integer. -/
  | notIntText
  /-- It should have no fractional part. -/
  | fractional
  /-- It should be finite. -/
  | notFinite
  /-- It is an integer with too many digits. -/
  | tooLong
  /-- It should be a number. -/
  | notNumber
  /-- It should be the text of a number. -/
  | notNumberText
  /-- It should be a truth value. -/
  | notTruth
  /-- It should stand for a truth value. -/
  | notTruthText
  /-- It should be at least a bound. -/
  | below (least : Nat)
  /-- It should be at most a bound. -/
  | above (most : Nat)
  /-- It should be greater than a bound. -/
  | notAbove (bound : Nat)
  /-- It should be a level. -/
  | notLevel
  /-- It should be a name. -/
  | notName (written : Text)
  /-- It should be a map with the settings of a kind. -/
  | notSection (kind : Text)
  /-- There is no such section. -/
  | unknown
  /-- There is no such section to assign. -/
  | unassignable (name : Text)
  /-- A section should have a text as its name. -/
  | notTextKey
  deriving DecidableEq, Repr

namespace ProblemKind

/-- The name under which a kind of problem is reported. -/
def name : ProblemKind → Text
  | .notText => "string_type".toList
  | .empty => "string_too_short".toList
  | .notAddress => "string_pattern_mismatch".toList
  | .notList => "list_type".toList
  | .notInt => "int_type".toList
  | .notIntText => "int_parsing".toList
  | .fractional => "int_from_float".toList
  | .notFinite => "finite_number".toList
  | .tooLong => "int_parsing_size".toList
  | .notNumber => "float_type".toList
  | .notNumberText => "float_parsing".toList
  | .notTruth => "bool_type".toList
  | .notTruthText => "bool_parsing".toList
  | .below _ => "greater_than_equal".toList
  | .above _ => "less_than_equal".toList
  | .notAbove _ => "greater_than".toList
  | .notLevel => "literal_error".toList
  | .notName _ => "value_error".toList
  | .notSection _ => "model_type".toList
  | .unknown => "extra_forbidden".toList
  | .unassignable _ => "no_such_attribute".toList
  | .notTextKey => "invalid_key".toList

/-- The message about a kind of problem. -/
def message : ProblemKind → Text
  | .notText => "Input should be a valid string".toList
  | .empty => "String should have at least 1 character".toList
  | .notAddress => "String should match pattern '^https?://.*'".toList
  | .notList => "Input should be a valid list".toList
  | .notInt => "Input should be a valid integer".toList
  | .notIntText =>
    "Input should be a valid integer, unable to parse string as an integer".toList
  | .fractional =>
    "Input should be a valid integer, got a number with a fractional part".toList
  | .notFinite => "Input should be a finite number".toList
  | .tooLong => "Unable to parse input string as an integer, exceeded maximum size".toList
  | .notNumber => "Input should be a valid number".toList
  | .notNumberText => "Input should be a valid number, unable to parse string as a number".toList
  | .notTruth => "Input should be a valid boolean".toList
  | .notTruthText => "Input should be a valid boolean, unable to interpret input".toList
  | .below least => "Input should be greater than or equal to ".toList ++ Text.ofNat least
  | .above most => "Input should be less than or equal to ".toList ++ Text.ofNat most
  | .notAbove bound => "Input should be greater than ".toList ++ Text.ofNat bound
  | .notLevel =>
    "Input should be 'DEBUG', 'INFO', 'WARNING', 'ERROR' or 'CRITICAL'".toList
  | .notName written =>
    "Value error, Lookup identifier must be a Lua identifier, got: ".toList ++ written
  | .notSection kind => "Input should be a valid dictionary or instance of ".toList ++ kind
  | .unknown => "Extra inputs are not permitted".toList
  | .unassignable name => "Object has no attribute '".toList ++ name ++ "'".toList
  | .notTextKey => "Keys should be strings".toList

end ProblemKind

/-- A problem with its place. -/
structure Problem where
  /-- The names and numbers that lead to the value. -/
  place : List Text
  /-- What is wrong with it. -/
  kind : ProblemKind
  deriving DecidableEq, Repr

/-- The problems in the order of their places. -/
def Problem.sort (problems : List Problem) : List Problem :=
  problems.mergeSort fun a b => Text.firstDifferenceLe Text.le a.place b.place

/-- A value without problems, or all problems that were found on the way to it. -/
inductive Checked (α : Type) where
  /-- A value without problems. -/
  | valid (a : α)
  /-- Problems. -/
  | faulty (problems : List Problem)

namespace Checked

/-- The outcome for a value by itself. -/
def ofExcept {α : Type} : Except ProblemKind α → Checked α
  | .ok a => .valid a
  | .error kind => .faulty [⟨[], kind⟩]

/-- The outcome for a value that is found below a name. -/
def below {α : Type} (name : Text) : Checked α → Checked α
  | .valid a => .valid a
  | .faulty problems => .faulty (problems.map fun p => { p with place := name :: p.place })

/-- Two outcomes together: both values, or the problems of both. -/
def both {α β γ : Type} (f : α → β → γ) : Checked α → Checked β → Checked γ
  | .valid a, .valid b => .valid (f a b)
  | .valid _, .faulty q => .faulty q
  | .faulty p, .valid _ => .faulty p
  | .faulty p, .faulty q => .faulty (p ++ q)

instance : Applicative Checked where
  pure := .valid
  seq f a := both (fun f a => f a) f (a ())

/-- Two outcomes have a value together exactly when each has one. -/
theorem both_eq_valid_iff {α β γ : Type} {f : α → β → γ} {a : Checked α} {b : Checked β}
    {c : γ} : both f a b = .valid c ↔ ∃ x y, a = .valid x ∧ b = .valid y ∧ f x y = c := by
  cases a <;> cases b <;> simp [both]

end Checked

/-- How a key that is no text is named. -/
def Value.keyText : Value → Text
  | .null => "None".toList
  | .bool b => if b then "1".toList else "0".toList
  | .int i => Text.ofInt i
  | .double d => d.text
  | .text t => t
  | .date d => d.text
  | .moment m => m.text
  | .list _ => []
  | .map _ => []

end Phrasebook
