import Phrasebook.Command.Clean
import Phrasebook.Command.Invocation
import Phrasebook.Command.Renew
import Phrasebook.Command.Report
import Phrasebook.Settings.Load
import Phrasebook.Settings.Sample

/-!
# Running commands

A command line is run from its words to an exit code. What goes wrong on the way is told in the
journal, and never ends the program in another manner.
-/

namespace Phrasebook.Command

/-- What has become of a command line. -/
structure Outcome where
  /-- The exit code. -/
  code : Nat
  /-- The level from which on the console shows records. -/
  console : Level
  deriving DecidableEq, Repr

/-- The exit code of a job: 0 when it is done, 1 when it is not. A fault is told in the journal. -/
def settle (job : Job Bool) : Job Nat := do
  match ← Job.attempt job with
  | .ok true => return 0
  | .ok false => return 1
  | .error (.failure f) =>
    Job.record .error f.userMessage
    return 1
  | .error fault =>
    Job.record .error ("Addon Localizer failed: ".toList ++ fault.message)
    return 1

/-- Restore a locale file and tell from which backup. -/
def restore (s : Session) (code : Text) : Job Unit := do
  let backup ← Backup.restore s.directory code
  Job.print ("Restored ".toList ++ code ++ " from ".toList ++ (Path.ofText backup).name)

/-- Delete the backups of a locale file and tell how many there were. -/
def deleteBackups (s : Session) (code : Text) : Job Unit := do
  let deleted ← Backup.deleteAll s.directory code
  Job.print ("Deleted ".toList ++ Text.ofNat deleted ++ " backup(s) of ".toList ++ code)

/-- Write the sample of a settings file. A file that exists is only overwritten when that is asked
for. -/
def writeSample (path : Path) (force : Bool) : Job Bool := do
  if (← get).disk.exists? path && !force then
    Job.record .error ("Configuration file already exists: ".toList ++ path.text ++
      "; use --force to overwrite it".toList)
    return false
  match ← Job.attempt (Files.makeDirectory path.parent) with
  | .error (.disk .exists p) =>
    Job.record .error ((Fault.disk .exists p).message ++
      "; use --force to overwrite it".toList)
    return false
  | .error fault => throw fault
  | .ok _ =>
    Files.overwrite path (Text.encode Settings.sample)
    Job.record .info ("Created sample configuration at ".toList ++ path.text)
    Job.print ("Wrote sample configuration to ".toList ++ path.text)
    return true

/-- Do what a command asks for in an addon. -/
def perform (settings : Settings) (environmentKey : Option Text) : Task → Job Bool
  | .report addon => do
    Report.run ⟨addon, settings⟩
    return true
  | .cleanOrphans addon backup => do
    Clean.orphans ⟨addon, settings⟩ (settings.files.keepsBackups && backup)
    return true
  | .cleanDuplicates addon backup => do
    Clean.duplicates ⟨addon, settings⟩ (settings.files.keepsBackups && backup)
    return true
  | .updateMachine addon base => Renew.run ⟨addon, settings⟩ environmentKey base
  | .restore addon code => do
    restore ⟨addon, settings⟩ code
    return true
  | .deleteBackups addon code => do
    deleteBackups ⟨addon, settings⟩ code
    return true
  | .writeSample path force => writeSample path force

/-- Add the records of the trace from a place on to the journal file. -/
def appendRecords (path : Path) (known : Nat) : Job Unit := do
  let w ← get
  let lines := (w.trace.drop known).filterMap fun e =>
    match e with
    | .recorded r => some r.text
    | _ => none
  let content := (w.disk.read path).toOption.getD .empty
  Files.overwrite path (content ++ Text.encode (Text.joinLines lines ['\n']))

/-- Do a job and add its records to the journal file, if there is one. -/
def withJournal (file : Option Text) (job : Job Bool) : Job Nat := do
  match file with
  | none => settle job
  | some [] => settle job
  | some file =>
    let path := Path.ofText file
    let known := (← get).trace.length
    let opened ← settle do
      Files.makeDirectory path.parent
      appendRecords path known
      return true
    if opened = 0 then
      let code ← settle job
      discard <| Job.attempt (appendRecords path known)
      return code
    else return opened

/-- The settings for a command line. A file that is named has to exist; the one that is used when
none is named need not. -/
def chooseSettings (d : Disk) (named : Option Path) : Except Text Settings :=
  let path := named.getD defaultSettings
  if named.isNone && !d.exists? path then .ok {}
  else
    match Settings.load d path with
    | .ok settings => .ok settings
    | .error (.missing p) => .error (SettingsFault.missing p).message
    | .error fault =>
      .error ("Please check ".toList ++ path.text ++ " for errors: ".toList ++ fault.message)

/-- Do what was asked for. -/
def invoke (environmentKey : Option Text) (asked : Invocation) : Job Outcome := do
  let console (level : Level) : Level := if asked.isVerbose then .debug else level
  match asked.task with
  | .writeSample path force => return ⟨← settle (writeSample path force), console .info⟩
  | task =>
    match chooseSettings (← get).disk asked.settings with
    | .error message =>
      Job.record .error message
      return ⟨1, console .info⟩
    | .ok settings =>
      let code ← withJournal settings.journal.file (perform settings environmentKey task)
      return ⟨code, console settings.journal.level⟩

/-- Run a command line. One that is not understood has exit code 2. -/
def run (environmentKey : Option Text) (words : List Text) : Job Outcome :=
  match Invocation.ofWords words with
  | .error .help => return ⟨0, .info⟩
  | .error .misuse => return ⟨2, .info⟩
  | .ok asked => invoke environmentKey asked

end Phrasebook.Command
