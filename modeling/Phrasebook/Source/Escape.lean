import Phrasebook.Source.Literal

/-!
# Escapes

The values of literals and their raw text. Reading replaces the common escapes and leaves other
pairs as they are. Writing leaves alone what looks escaped already: a quote after exactly one
backslash, and a backslash that starts a common escape.
-/

namespace Phrasebook.Source

/-- The character that a backslash and `c` stand for, for the common escapes. -/
def escaped? (c : Char) : Option Char :=
  if c = 'n' then some '\n'
  else if c = 'r' then some '\r'
  else if c = 't' then some '\t'
  else if c = '\\' || c = '"' || c = '\'' then some c
  else none

/-- The value that a raw text stands for. Pairs that are no common escape stay as they are, and so
does a backslash at the end. -/
def unescape : Text → Text
  | [] => []
  | c :: t =>
    if c = '\\' then
      match t with
      | [] => [c]
      | d :: t =>
        match escaped? d with
        | some value => value :: unescape t
        | none => c :: d :: unescape t
    else c :: unescape t

/-- The characters before which a backslash is left alone when a value is written. -/
def keepsBackslash (c : Char) : Bool :=
  c == 'n' || c == 'r' || c == 't' || c == '\\' || c == '"'

/-- Whether a quote after these two characters is escaped already: by exactly one backslash. -/
def isEscapedAfter (before previous : Option Char) : Bool :=
  previous == some '\\' && before != some '\\'

/-- How one character of a value is written between its neighbours: `previous` and the character
`before` that on its left, `following` on its right. -/
def escapeChar (before previous : Option Char) (c : Char) (following : Option Char) : Text :=
  if c = '"' then if isEscapedAfter before previous then [c] else ['\\', c]
  else if c = '\\' then if following.any keepsBackslash then [c] else [c, c]
  else if c = '\n' then ['\\', 'n']
  else if c = '\r' then ['\\', 'r']
  else if c = '\t' then ['\\', 't']
  else [c]

/-- The raw text of what is left of a value after the two given characters. -/
def escapeFrom : Option Char → Option Char → Text → Text
  | _, _, [] => []
  | before, previous, c :: t =>
    escapeChar before previous c t.head? ++ escapeFrom previous (some c) t

/-- The raw text that a value is written as, between double quotes. -/
def escape (value : Text) : Text :=
  escapeFrom none none value

end Phrasebook.Source
