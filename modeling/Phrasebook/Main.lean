import Phrasebook.Command.Run
import Std.Time

/-!
# The program

The files that a command line is about are read into a disk, the command line is run on it, and
what has changed is written back. There is no line to a translation service here, so every request
ends without a connection.
-/

namespace Phrasebook.Program

open Command

/-- The names from the root to a path of the system. -/
def locationOf (path : String) : Location :=
  (Path.ofText path.toList).names

/-- A place as a path of the system. -/
def systemPath (place : Location) : String :=
  String.ofList ('/' :: Text.join ['/'] place)

/-- The names from the root to a path, without dots. -/
def placeOf (working : Location) (p : Path) : Location :=
  p.names.foldl (fun place name => if name = ['.', '.'] then place.dropLast else place ++ [name])
    (if p.isAbsolute then [] else working)

/-- What stands at a path of the system, as it is found from a place on. A file that cannot be read
is left out. -/
def readNode (place : Location) (path : String) : IO (List (Location × Node)) := do
  match ← (IO.FS.readBinFile path).toBaseIO with
  | .ok content => return [(place, .file content)]
  | .error _ => return []

/-- Everything that stands at a place of the system and below. -/
def readTree (place : Location) : IO (List (Location × Node)) := do
  match ← (IO.FS.realPath (systemPath place)).toBaseIO with
  | .error _ => return []
  | .ok root =>
    if ← root.isDir then
      let depth := (locationOf root.toString).length
      let found ← (← root.walkDir).toList.mapM fun path => do
        let below := place ++ (locationOf path.toString).drop depth
        if ← path.isDir then return [(below, Node.directory)]
        else readNode below path.toString
      return (place, .directory) :: found.flatten
    else if ← root.pathExists then readNode place root.toString
    else return []

/-- The disk with a path of the system, everything below it, and the directories on the way. -/
def readPath (d : Disk) (p : Path) : IO Disk := do
  let place := placeOf d.working p
  let ways := (List.range' 1 (place.length - 1)).map place.take
  let known ← ways.filterM fun way => do
    match ← (IO.FS.realPath (systemPath way)).toBaseIO with
    | .ok path => path.isDir
    | .error _ => return false
  let tree ← readTree place
  return ((known.map (·, Node.directory)) ++ tree).foldl (fun d e => d.set e.1 e.2) d

/-- The paths that a command reads besides the settings file. -/
def pathsOf (asked : Invocation) (settings : Settings) : List Path :=
  [asked.task.path, asked.task.path.append (.ofText settings.files.directory)] ++
    (settings.journal.file.map Path.ofText).toList

/-- Whether a node is as it was before. -/
def isKept (before : Disk) (place : Location) : Node → Bool
  | .directory => before.isDirectoryAt place
  | .file content =>
    match before.node? place with
    | some (.file old) => old.data == content.data
    | _ => false

/-- Write what has changed on a disk to the system. -/
def writeBack (before after : Disk) : IO Unit := do
  for (place, node) in after.nodes do
    unless isKept before place node do
      match node with
      | .directory => IO.FS.createDirAll (systemPath place)
      | .file content => IO.FS.writeBinFile (systemPath place) content
  for (place, _) in before.nodes do
    if (after.node? place).isNone then
      IO.FS.removeFile (systemPath place)

/-- Show what a job has printed, and the records that reach the console. -/
def showTrace (console : Level) (trace : List Event) : IO Unit := do
  for e in trace do
    match e with
    | .printed t => IO.println (String.ofList t)
    | .recorded r => if r.isShownAt console then IO.eprintln (String.ofList r.text)
    | _ => pure ()

/-- Run a command line that is understood. -/
def runAsked (asked : Invocation) (words : List Text) : IO UInt32 := do
  let working := locationOf (← IO.currentDir).toString
  let d ← readPath ⟨[], working⟩ (asked.settings.getD defaultSettings)
  let settings := (chooseSettings d asked.settings).toOption.getD {}
  let d ← (pathsOf asked settings).foldlM readPath d
  let now ← Std.Time.PlainDateTime.now
  let key ← IO.getEnv (String.ofList Translation.Service.keyVariable)
  let w : World :=
    { disk := d
      clock := [(now.format "uuuuMMdd_HHmmss").toList]
      replies := []
      fallback := fun _ => .noConnection "No connection".toList
      unwritable := []
      trace := [] }
  let (outcome, w) := (Command.run (key.map String.toList) words).run.run w
  writeBack d w.disk
  match outcome with
  | .ok outcome =>
    showTrace outcome.console w.trace
    return outcome.code.toUInt32
  | .error fault =>
    IO.eprintln (String.ofList fault.message)
    return 1

/-- How the program is called. -/
def usage : String :=
  "usage: addon-localizer [-h] [--config CONFIG_FILE] [-v] COMMAND ..."

end Phrasebook.Program

/-- Run the command line of the program. -/
def main (words : List String) : IO UInt32 := do
  let words := words.map String.toList
  match Phrasebook.Command.Invocation.ofWords words with
  | .ok asked => Phrasebook.Program.runAsked asked words
  | .error .help =>
    IO.println Phrasebook.Program.usage
    return 0
  | .error .misuse =>
    IO.eprintln Phrasebook.Program.usage
    return 2
