/-!
# Texts

A text is the list of its characters. Lines, keys, paths and messages are texts, so every position
in this library counts characters.
-/

namespace Phrasebook

/-- A text is the list of its characters. -/
abbrev Text := List Char

namespace Text

/-- A natural number in decimal digits. -/
def ofNat (n : Nat) : Text :=
  Nat.toDigits 10 n

/-- An integer in decimal digits, after a minus sign when it is negative. -/
def ofInt : Int → Text
  | .ofNat n => ofNat n
  | .negSucc n => '-' :: ofNat (n + 1)

/-- What follows `p` in a text that starts with `p`. -/
def after? : Text → Text → Option Text
  | [], t => some t
  | _ :: _, [] => none
  | a :: p, b :: t => if a = b then after? p t else none

/-- A text is cut after `p` exactly when it is `p` with that rest. -/
theorem after?_eq_some_iff {p t r : Text} : after? p t = some r ↔ t = p ++ r := by
  induction p generalizing t with
  | nil => simp [after?, eq_comm]
  | cons a p ih =>
    cases t with
    | nil => simp [after?]
    | cons b t =>
      by_cases h : a = b
      · simp [after?, h, ih]
      · simp [after?, h, Ne.symm h]

/-- Whether a text starts with `p`. -/
def startsWith (t p : Text) : Bool :=
  (after? p t).isSome

/-- Whether a text ends with `p`. -/
def endsWith (t p : Text) : Bool :=
  (after? p.reverse t.reverse).isSome

/-- The texts of a list with a separator between neighbours. -/
def join (separator : Text) (parts : List Text) : Text :=
  List.intercalate separator parts

/-- The pieces of a text between the occurrences of a separating character. -/
def pieces (separator : Char) : Text → List Text
  | [] => [[]]
  | c :: t =>
    if c = separator then [] :: pieces separator t
    else
      match pieces separator t with
      | [] => [[c]]
      | piece :: rest => (c :: piece) :: rest

/-- What is left of a text behind each of its places, the text itself first. -/
def suffixes : Text → List Text
  | [] => [[]]
  | c :: t => (c :: t) :: suffixes t

/-- The order of lists by their first difference, the elements in the order of `le`: whether the
first list does not come after the second. -/
def firstDifferenceLe [DecidableEq α] (le : α → α → Bool) : List α → List α → Bool
  | [], _ => true
  | _ :: _, [] => false
  | a :: s, b :: t => if a = b then firstDifferenceLe le s t else le a b

/-- Code point order: whether the first text does not come after the second. -/
def le (a b : Text) : Bool :=
  firstDifferenceLe (fun c d => c.toNat ≤ d.toNat) a b

/-- The texts of a list in code point order. -/
def sort (texts : List Text) : List Text :=
  texts.mergeSort le

/-- The ASCII letters of a text in lower case, other characters unchanged. -/
def lowerAscii (t : Text) : Text :=
  t.map Char.toLower

end Text

end Phrasebook
