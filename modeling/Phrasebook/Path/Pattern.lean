import Phrasebook.Path.Basic

/-!
# Name patterns

A pattern of a file name: a star stands for any text, a question mark for any character, and
brackets for one character of a class. A class lists characters and ranges, an exclamation mark
turns it round, and a bracket that is not closed stands for itself. Ranges that run backwards are
dropped.
-/

namespace Phrasebook.Path

/-- The characters that a class stands for. -/
structure CharClass where
  /-- Whether the class stands for all other characters. -/
  negated : Bool
  /-- The characters that are listed. -/
  singles : Text
  /-- The ranges, by their ends. -/
  ranges : List (Char × Char)
  deriving DecidableEq, Repr

/-- Whether a class stands for a character. -/
def CharClass.contains (s : CharClass) (c : Char) : Bool :=
  (s.singles.contains c || s.ranges.any fun range => range.1 ≤ c && c ≤ range.2) != s.negated

/-- An element of a pattern. -/
inductive Glob where
  /-- Any text. -/
  | anyText
  /-- Any character. -/
  | anyChar
  /-- This character. -/
  | char (c : Char)
  /-- A character of this class. -/
  | oneOf (s : CharClass)
  deriving DecidableEq, Repr

/-- The text of a class behind its opening bracket, and what follows its closing one. A closing
bracket that comes first, or first after an exclamation mark, belongs to the class. -/
def takeClass (t : Text) : Option (Text × Text) :=
  let mark := if t.head? = some '!' then ['!'] else []
  let t := t.drop mark.length
  let first := if t.head? = some ']' then [']'] else []
  let t := t.drop first.length
  let inside := t.takeWhile (· ≠ ']')
  match t.drop inside.length with
  | [] => none
  | _ :: rest => some (mark ++ first ++ inside, rest)

/-- The parts of a class between the dashes that make ranges. The first `wait` characters cannot be
such a dash, and after one the next two cannot. A dash at the end makes no range. -/
def chunksFrom : Nat → Text → Text → List Text
  | _, chunk, [] => [chunk]
  | 0, chunk, c :: t =>
    if c = '-' then
      if t.isEmpty then [chunk ++ ['-']] else chunk :: chunksFrom 2 [] t
    else chunksFrom 0 (chunk ++ [c]) t
  | wait + 1, chunk, c :: t => chunksFrom wait (chunk ++ [c]) t

/-- Put a part of a class in front of others. A range that would run backwards is dropped with both
of its ends. -/
def joinChunk (chunk : Text) : List Text → List Text
  | [] => [chunk]
  | next :: rest =>
    match chunk.getLast?, next.head? with
    | some low, some high =>
      if high < low then (chunk.dropLast ++ next.drop 1) :: rest else chunk :: next :: rest
    | _, _ => chunk :: next :: rest

/-- The ranges between neighbouring parts of a class. -/
def chunkRanges : List Text → List (Char × Char)
  | chunk :: next :: rest =>
    match chunk.getLast?, next.head? with
    | some low, some high => (low, high) :: chunkRanges (next :: rest)
    | _, _ => chunkRanges (next :: rest)
  | _ => []

/-- The class that a text between brackets writes. -/
def CharClass.ofText (t : Text) : CharClass :=
  let chunks := (chunksFrom (if t.head? = some '!' then 2 else 1) [] t).foldr joinChunk []
  match chunks with
  | ('!' :: first) :: rest => ⟨true, (first :: rest).flatten, chunkRanges (first :: rest)⟩
  | chunks => ⟨false, chunks.flatten, chunkRanges chunks⟩

/-- The elements of a pattern, after `skip` characters that belong to the class before. -/
def globFrom : Nat → Text → List Glob
  | _, [] => []
  | skip + 1, _ :: t => globFrom skip t
  | 0, c :: t =>
    if c = '*' then .anyText :: globFrom 0 t
    else if c = '?' then .anyChar :: globFrom 0 t
    else if c = '[' then
      match takeClass t with
      | some (inside, rest) => .oneOf (.ofText inside) :: globFrom (t.length - rest.length) t
      | none => .char c :: globFrom 0 t
    else .char c :: globFrom 0 t

/-- Whether a name is what the elements of a pattern stand for. -/
def globMatches : List Glob → Text → Bool
  | [], t => t.isEmpty
  | .anyText :: rest, t => (Text.suffixes t).any (globMatches rest)
  | .anyChar :: rest, _ :: t => globMatches rest t
  | .char d :: rest, c :: t => c == d && globMatches rest t
  | .oneOf s :: rest, c :: t => s.contains c && globMatches rest t
  | _ :: _, [] => false

/-- Whether a name is of a pattern. -/
def nameMatches (pattern name : Text) : Bool :=
  globMatches (globFrom 0 pattern) name

/-- Whether a pattern says more than a name. -/
def isPattern (t : Text) : Bool :=
  t.any fun c => c == '*' || c == '?' || c == '['

end Phrasebook.Path
