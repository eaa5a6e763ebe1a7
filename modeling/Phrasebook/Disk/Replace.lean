import Phrasebook.Disk.Basic
import Phrasebook.Text.Quoted

/-!
# Replacing files

A file is replaced by way of a temporary file beside it, which is created, filled and moved onto the
file. When the system refuses one of these steps, the temporary file is taken away again.
-/

namespace Phrasebook

namespace Disk

/-- A step on the way of replacing a file. -/
inductive Stage where
  /-- A temporary file is created. -/
  | create
  /-- The new content is written to the temporary file. -/
  | fill
  /-- The temporary file is moved onto the file. -/
  | move
  deriving DecidableEq, Repr

/-- Why a file is not replaced. -/
inductive ReplaceFault where
  /-- The system refuses a step for reasons of its own. -/
  | system (cause : Text)
  /-- The temporary file cannot be created. -/
  | create (refusal : DiskRefusal) (temporary : Location)
  /-- The temporary file cannot be moved onto the file. -/
  | move (refusal : DiskRefusal) (temporary : Location) (target : Path)
  deriving DecidableEq, Repr

/-- The text of a place, in quotes. -/
def quotedPlace (place : Location) : Text :=
  Text.quoted ('/' :: Text.join ['/'] place)

/-- The words of the system for the step that fails. -/
def ReplaceFault.message : ReplaceFault → Text
  | .system cause => cause
  | .create refusal temporary => refusal.text ++ ": ".toList ++ quotedPlace temporary
  | .move refusal temporary target =>
    refusal.text ++ ": ".toList ++ quotedPlace temporary ++ " -> ".toList ++ Text.quoted target.text

/-- A name for a temporary file beside a file with a name. -/
def temporaryName (name : Text) (number : Nat) : Text :=
  '.' :: name ++ '.' :: List.replicate (8 + number) '_' ++ ".tmp".toList

/-- The places in a directory that are tried for a temporary file. -/
def temporaryPlaces (d : Disk) (directory : Location) (name : Text) : List Location :=
  (List.range (d.nodes.length + 1)).map fun number => directory ++ [temporaryName name number]

/-- The place for a temporary file in a directory: the first one at which nothing stands. -/
def temporaryPlace (d : Disk) (directory : Location) (name : Text) : Location :=
  ((d.temporaryPlaces directory name).find? fun place => (d.node? place).isNone).getD directory

/-- The place that a path names, whether or not there is a way to it. -/
def namedPlace (d : Disk) (p : Path) : Location :=
  p.names.foldl (fun place name => if name = ['.', '.'] then place.dropLast else place ++ [name])
    (if p.isAbsolute then [] else d.working)

/-- The disk without what stands at a place. -/
def remove (d : Disk) (place : Location) : Disk :=
  { d with nodes := d.nodes.filter fun entry => entry.1 ≠ place }

/-- The disk with the file at a place moved to a path. A file that the path leads to is replaced. -/
def move (d : Disk) (place : Location) (p : Path) : Except DiskRefusal Disk :=
  match d.node? place with
  | none => .error .missing
  | some .directory => .error .isDirectory
  | some (.file content) => (d.remove place).write p content

/-- Create a file at a place, fill it and move it to a path. The disk is that after the last step,
or the one at hand when a step is refused. -/
def fillAndMove (d : Disk) (place : Location) (p : Path) (content : ByteArray)
    (refused : Stage → Option Text) : Except ReplaceFault Unit × Disk :=
  match refused .create with
  | some cause => (.error (.system cause), d)
  | none =>
    let created := d.set place (.file .empty)
    match refused .fill with
    | some cause => (.error (.system cause), created)
    | none =>
      let filled := created.set place (.file content)
      match refused .move with
      | some cause => (.error (.system cause), filled)
      | none =>
        match filled.move place p with
        | .ok moved => (.ok ⟨⟩, moved)
        | .error refusal => (.error (.move refusal place p), filled)

/-- Replace the file of a path, or make it: the fault, if this cannot be done, and the disk that is
left. Steps are refused by the disk, or by the system for reasons of its own. -/
def replace (d : Disk) (p : Path) (content : ByteArray) (refused : Stage → Option Text) :
    Except ReplaceFault Unit × Disk :=
  let uncreated (refusal : DiskRefusal) : Except ReplaceFault Unit × Disk :=
    (.error (.create refusal (d.temporaryPlace (d.namedPlace p.parent) p.name)), d)
  match d.locate p with
  | .error refusal => uncreated refusal
  | .ok target =>
    match d.node? target.dropLast with
    | none => uncreated .missing
    | some (.file _) => uncreated .notDirectory
    | some .directory =>
      let place := d.temporaryPlace target.dropLast p.name
      match d.fillAndMove place p content refused with
      | (.ok _, replaced) => (.ok ⟨⟩, replaced)
      | (.error fault, left) => (.error fault, left.remove place)

end Disk

end Phrasebook
