import Phrasebook.Path.Basic
import Phrasebook.Text.Utf8

/-!
# Disks

A disk is a tree of directories and files, given by the places where they are. A place is the list
of names from the root on, without dots; a path is followed to a place name by name, and every name
on the way has to be a directory.
-/

namespace Phrasebook

/-- The names from the root to a file or directory. -/
abbrev Location := List Text

/-- What stands at a place. -/
inductive Node where
  | directory
  | file (content : ByteArray)

/-- A tree of directories and files. -/
structure Disk where
  /-- What stands at which place; the root is always a directory. -/
  nodes : List (Location × Node)
  /-- The place of the working directory. -/
  working : Location

/-- Why the system refuses to work with a path. -/
inductive DiskRefusal where
  /-- Nothing is there. -/
  | missing
  /-- There is a directory where a file is needed. -/
  | isDirectory
  /-- There is a file where a directory is needed. -/
  | notDirectory
  /-- There is something already. -/
  | exists
  deriving DecidableEq, Repr

/-- The number and the words of the system for a refusal. -/
def DiskRefusal.text : DiskRefusal → Text
  | .missing => "[Errno 2] No such file or directory".toList
  | .exists => "[Errno 17] File exists".toList
  | .notDirectory => "[Errno 20] Not a directory".toList
  | .isDirectory => "[Errno 21] Is a directory".toList

namespace Disk

/-- What stands at a place. -/
def node? (d : Disk) (place : Location) : Option Node :=
  if place.isEmpty then some .directory else d.nodes.lookup place

/-- Whether a place is that of a directory. -/
def isDirectoryAt (d : Disk) (place : Location) : Bool :=
  match d.node? place with
  | some .directory => true
  | _ => false

/-- Follow names from a place. -/
def follow (d : Disk) : Location → List Text → Except DiskRefusal Location
  | place, [] => .ok place
  | place, name :: names =>
    match d.node? place with
    | none => .error .missing
    | some (.file _) => .error .notDirectory
    | some .directory =>
      d.follow (if name = ['.', '.'] then place.dropLast else place ++ [name]) names

/-- The place that a path leads to. Something may or may not stand there. -/
def locate (d : Disk) (p : Path) : Except DiskRefusal Location :=
  d.follow (if p.isAbsolute then [] else d.working) p.names

/-- What a path leads to. -/
def get? (d : Disk) (p : Path) : Option Node :=
  match d.locate p with
  | .ok place => d.node? place
  | .error _ => none

/-- Whether a path leads to a directory. -/
def isDirectory (d : Disk) (p : Path) : Bool :=
  match d.get? p with
  | some .directory => true
  | _ => false

/-- Whether a path leads to a file. -/
def isFile (d : Disk) (p : Path) : Bool :=
  match d.get? p with
  | some (.file _) => true
  | _ => false

/-- Whether a path leads to anything. -/
def exists? (d : Disk) (p : Path) : Bool :=
  (d.get? p).isSome

/-- The content of the file that a path leads to. -/
def read (d : Disk) (p : Path) : Except DiskRefusal ByteArray :=
  match d.locate p with
  | .error refusal => .error refusal
  | .ok place =>
    match d.node? place with
    | none => .error .missing
    | some .directory => .error .isDirectory
    | some (.file content) => .ok content

/-- Set what stands at a place in a list of places. -/
def setNode (place : Location) (node : Node) : List (Location × Node) → List (Location × Node)
  | [] => [(place, node)]
  | entry :: rest =>
    if entry.1 = place then (place, node) :: rest else entry :: setNode place node rest

/-- The disk with something set at a place. -/
def set (d : Disk) (place : Location) (node : Node) : Disk :=
  { d with nodes := setNode place node d.nodes }

/-- The disk with the content of a file set. Its directory has to exist. -/
def write (d : Disk) (p : Path) (content : ByteArray) : Except DiskRefusal Disk :=
  match d.locate p with
  | .error refusal => .error refusal
  | .ok place =>
    match d.node? place.dropLast, d.node? place with
    | none, _ => .error .missing
    | some (.file _), _ => .error .notDirectory
    | some .directory, some .directory => .error .isDirectory
    | some .directory, _ => .ok (d.set place (.file content))

/-- The disk without a file. -/
def delete (d : Disk) (p : Path) : Except DiskRefusal Disk :=
  match d.locate p with
  | .error refusal => .error refusal
  | .ok place =>
    match d.node? place with
    | none => .error .missing
    | some .directory => .error .isDirectory
    | some (.file _) => .ok { d with nodes := d.nodes.filter fun entry => entry.1 ≠ place }

/-- Make the directories that names lead to from a place, where they are missing. -/
def makeFrom (d : Disk) : Location → List Text → Except DiskRefusal Disk
  | _, [] => .ok d
  | place, name :: names =>
    let next := if name = ['.', '.'] then place.dropLast else place ++ [name]
    match d.node? next with
    | some .directory => d.makeFrom next names
    | some (.file _) => .error (if names.isEmpty then .exists else .notDirectory)
    | none => (d.set next .directory).makeFrom next names

/-- The disk with a directory, and with those on the way to it. -/
def makeDirectory (d : Disk) (p : Path) : Except DiskRefusal Disk :=
  d.makeFrom (if p.isAbsolute then [] else d.working) p.names

end Disk

end Phrasebook
