import Phrasebook.Text.Basic

/-!
# Paths

A path is a list of names below a root or below the working directory. Empty names and single dots
are left out; two dots are kept. Exactly two slashes at the front are a root of their own.
-/

namespace Phrasebook

/-- A path. -/
structure Path where
  /-- The slashes that stand for the root; none for a path below the working directory. -/
  root : Text
  /-- The names from the root on. -/
  names : List Text
  deriving DecidableEq, Repr

namespace Path

/-- The root that a text starts with. -/
def rootOf : Text → Text
  | '/' :: '/' :: '/' :: _ => ['/']
  | '/' :: '/' :: _ => ['/', '/']
  | '/' :: _ => ['/']
  | _ => []

/-- The path that a text writes. -/
def ofText (t : Text) : Path :=
  ⟨rootOf t, (Text.pieces '/' t).filter fun name => !name.isEmpty && name != ['.']⟩

/-- The text of a path; a single dot for the working directory. -/
def text (p : Path) : Text :=
  if p.root.isEmpty && p.names.isEmpty then ['.'] else p.root ++ Text.join ['/'] p.names

/-- Whether a path starts at the root. -/
def isAbsolute (p : Path) : Bool :=
  !p.root.isEmpty

/-- A path read below another one; an absolute path stays as it is. -/
def append (p q : Path) : Path :=
  if q.isAbsolute then q else ⟨p.root, p.names ++ q.names⟩

/-- A path with one more name. -/
def child (p : Path) (name : Text) : Path :=
  ⟨p.root, p.names ++ [name]⟩

/-- The path without its last name. -/
def parent (p : Path) : Path :=
  ⟨p.root, p.names.dropLast⟩

/-- The last name. -/
def name (p : Path) : Text :=
  p.names.getLast?.getD []

/-- A name without its last suffix. A dot at either end of the name starts no suffix. -/
def stem (name : Text) : Text :=
  match name.reverse.findIdx? (· = '.') with
  | none => name
  | some length =>
    if 0 < length && length + 1 < name.length then name.take (name.length - length - 1) else name

/-- The names of a path, after the root if it has one. -/
def segments (p : Path) : List Text :=
  if p.isAbsolute then p.root :: p.names else p.names

/-- The path below `base` that leads to the same place, if it lies there. -/
def relativeTo? (p base : Path) : Option Path :=
  if p.root = base.root && base.names.isPrefixOf p.names then
    some ⟨[], p.names.drop base.names.length⟩
  else none

end Path

end Phrasebook
