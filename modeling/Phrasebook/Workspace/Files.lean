import Phrasebook.Disk.Replace
import Phrasebook.Job
import Phrasebook.Text.Lines

/-!
# Files

Reading, writing, deleting and finding text files. A mark of the byte order at the start of a file
is not part of its text, and is not written.
-/

namespace Phrasebook.Files

/-- Whether a path leads to a directory. -/
def isDirectory (path : Text) : Job Bool :=
  return (← get).disk.isDirectory (.ofText path)

/-- Whether a path leads to a file. -/
def isFile (path : Text) : Job Bool :=
  return (← get).disk.isFile (.ofText path)

/-- The files below a directory that a search pattern leads to. -/
def find (directory pattern : Text) (recursive : Bool) : Job (List Text) := do
  match (← get).disk.files directory pattern recursive with
  | .ok paths => return paths
  | .error fault => throw (.pattern fault)

/-- A text without the mark of the byte order at its start. -/
def dropMark : Text → Text
  | c :: t => if c = '\uFEFF' then t else c :: t
  | [] => []

/-- The text of a file. -/
def readText (path : Text) : Job Text := do
  match (← get).disk.read (.ofText path) with
  | .error refusal => throw (.disk refusal (Path.ofText path).text)
  | .ok content =>
    match Text.decode content with
    | .error fault => throw (.undecodable fault)
    | .ok t => return dropMark t

/-- The lines of a file. -/
def readLines (path : Text) : Job (List Text) :=
  return Text.lines (← readText path)

/-- The words with which the system refuses a step on the way of writing a file, if it does. -/
def refusal? (unwritable : List Refusal) (path : Text) (stage : Disk.Stage) : Option Text :=
  (unwritable.find? fun r =>
    r.stage = stage ∧ (r.path = path ∨ r.path = (Path.ofText path).text)).map (·.cause)

/-- Write the text of a file by way of a temporary file, so that the file changes as a whole or not
at all. -/
def writeText (path : Text) (content : Text) : Job Unit := do
  let w ← get
  let target := Path.ofText path
  let (result, disk) := w.disk.replace target (Text.encode content) (refusal? w.unwritable path)
  set { w with disk := disk }
  match result with
  | .ok _ => return ⟨⟩
  | .error fault => throw (.write target.text fault)

/-- Write the lines of a file, each with the given end. -/
def writeLines (path : Text) (lines : List Text) (ending : Text) : Job Unit :=
  writeText path (Text.joinLines lines ending)

/-- Delete a file. A file that does not exist is no fault. -/
def delete (path : Text) : Job Unit := do
  let w ← get
  match w.disk.delete (.ofText path) with
  | .ok disk => set { w with disk := disk }
  | .error .missing => pure ()
  | .error refusal => throw (.disk refusal (Path.ofText path).text)
  Job.record .debug ("Deleted ".toList ++ path)

/-- Make a directory, and those on the way to it. -/
def makeDirectory (path : Path) : Job Unit := do
  let w ← get
  match w.disk.makeDirectory path with
  | .ok disk => set { w with disk := disk }
  | .error refusal => throw (.disk refusal path.text)

/-- Set the content of a file, without the care that locale files get. -/
def overwrite (path : Path) (content : ByteArray) : Job Unit := do
  let w ← get
  match w.disk.write path content with
  | .ok disk => set { w with disk := disk }
  | .error refusal => throw (.disk refusal path.text)

/-- Refuse a path that leads to no directory. -/
def requireDirectory (what directory : Text) : Job Unit := do
  unless ← isDirectory directory do
    Job.fail (.notFound (what ++ directory) (some directory) none)

/-- Refuse a path that leads to no file. -/
def requireFile (path : Text) : Job Unit := do
  unless ← isFile path do
    Job.fail (.notFound ("File not found: ".toList ++ path) (some path) none)

/-- The path of a file in a directory. -/
def inDirectory (directory name : Text) : Text :=
  ((Path.ofText directory).append (.ofText name)).text

end Phrasebook.Files
