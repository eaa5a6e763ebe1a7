import Phrasebook.Disk.Basic
import Phrasebook.Path.Pattern

/-!
# Finding files

A search pattern is a path of name patterns below a directory. Two stars as a name stand for the
directory and all directories below it. Found are the files that the whole pattern leads to, in the
order of their paths.
-/

namespace Phrasebook

/-- Why a search pattern is refused. -/
inductive PatternFault where
  /-- The pattern is empty. -/
  | empty
  /-- The pattern starts at the root. -/
  | absolute
  /-- Two stars stand in a name with other characters. -/
  | starsInName
  /-- The pattern has dots only. -/
  | noName
  /-- The pattern has dots only, and a slash at the end. -/
  | noNameSlash
  deriving DecidableEq, Repr

/-- What a name of a search pattern leads to. -/
inductive Step where
  /-- To the directory itself and all directories below it. -/
  | anyDepth
  /-- To what has a name of this pattern. -/
  | matching (pattern : Text)
  /-- To what has this name. -/
  | named (name : Text)
  /-- To the directory itself. -/
  | here
  deriving DecidableEq, Repr

/-- The step for a name of a search pattern. -/
def Step.ofName (name : Text) : Except PatternFault Step :=
  if name = ['*', '*'] then .ok .anyDepth
  else if (Text.suffixes name).any fun t => Text.startsWith t ['*', '*'] then .error .starsInName
  else if Path.isPattern name then .ok (.matching name)
  else .ok (.named name)

/-- The steps of a search pattern. A recursive search may start in any directory below. A slash at
the end asks for directories. -/
def stepsOf (pattern : Text) (recursive : Bool) : Except PatternFault (List Step) :=
  let path := Path.ofText pattern
  if pattern.isEmpty && !recursive then .error .empty
  else if path.isAbsolute then .error .absolute
  else do
    let steps ← path.names.mapM Step.ofName
    let final := if Text.endsWith pattern ['/'] then [Step.here] else []
    if recursive then return .anyDepth :: steps ++ final
    else
      match steps, final with
      | [], [] => throw .noName
      | [], _ => throw .noNameSlash
      | _, _ => return steps ++ final

namespace Disk

/-- The names of what stands in the directory of a path. -/
def childNames (d : Disk) (p : Path) : List Text :=
  match d.locate p with
  | .error _ => []
  | .ok place =>
    d.nodes.filterMap fun entry =>
      match entry.1.getLast? with
      | some name => if entry.1 = place ++ [name] then some name else none
      | none => none

/-- The directory of a path and all directories below it. -/
def directoriesBelow (d : Disk) (p : Path) : List Path :=
  match d.locate p with
  | .error _ => []
  | .ok place =>
    p :: d.nodes.filterMap fun entry =>
      match entry with
      | (other, .directory) =>
        if place.isPrefixOf other && place.length < other.length then
          some ⟨p.root, p.names ++ other.drop place.length⟩
        else none
      | _ => none

/-- What the steps of a search lead to from a directory. All but the last step go through
directories. -/
def search (d : Disk) : List Step → Path → List Path
  | [], p => [p]
  | step :: steps, p =>
    let passable (q : Path) : Bool := if steps.isEmpty then d.exists? q else d.isDirectory q
    match step with
    | .here => [p]
    | .named name => if passable (p.child name) then d.search steps (p.child name) else []
    | .matching pattern =>
      ((d.childNames p).filter fun name =>
        Path.nameMatches pattern name && passable (p.child name)).flatMap fun name =>
          d.search steps (p.child name)
    | .anyDepth => ((d.directoriesBelow p).flatMap (d.search steps)).eraseDups

/-- The files below a directory that a search pattern leads to, in the order of their paths. -/
def files (d : Disk) (directory : Text) (pattern : Text) (recursive : Bool) :
    Except PatternFault (List Text) := do
  let steps ← stepsOf pattern recursive
  let base := Path.ofText directory
  if d.isDirectory base then
    return Text.sort (((d.search steps base).filter d.isFile).map Path.text)
  else return []

end Disk

end Phrasebook
