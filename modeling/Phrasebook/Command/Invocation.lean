import Phrasebook.Command.Arguments
import Phrasebook.Path.Basic

/-!
# Commands

What a command line asks for: a command with its options, and before it the options that all
commands share.
-/

namespace Phrasebook.Command

/-- A command. -/
inductive Task where
  /-- Show what is translated. -/
  | report (addon : Path)
  /-- Remove the keys that no source uses. -/
  | cleanOrphans (addon : Path) (backup : Bool)
  /-- Leave one assignment of each key that is assigned more than once. -/
  | cleanDuplicates (addon : Path) (backup : Bool)
  /-- Translate what a base locale lacks, or what all of them lack. -/
  | updateMachine (addon : Path) (base : Option Text)
  /-- Restore a locale file from its last backup. -/
  | restore (addon : Path) (code : Text)
  /-- Delete the backups of a locale file. -/
  | deleteBackups (addon : Path) (code : Text)
  /-- Write a sample of a settings file. -/
  | writeSample (path : Path) (force : Bool)
  deriving DecidableEq, Repr

/-- The file or directory that a command works on. -/
def Task.path : Task → Path
  | .report addon => addon
  | .cleanOrphans addon _ => addon
  | .cleanDuplicates addon _ => addon
  | .updateMachine addon _ => addon
  | .restore addon _ => addon
  | .deleteBackups addon _ => addon
  | .writeSample path _ => path

/-- What a command line asks for. -/
structure Invocation where
  /-- The settings file to use. -/
  settings : Option Path
  /-- Whether all records are shown. -/
  isVerbose : Bool
  /-- The command. -/
  task : Task
  deriving DecidableEq, Repr

/-- The settings file that is used when none is named. -/
def defaultSettings : Path :=
  .ofText "addon-localizer.yml".toList

/-- The options that ask for an explanation. -/
def helpOptions : OptionNames :=
  [("-h".toList, .help), ("--help".toList, .help)]

/-- The options before a command. -/
def sharedOptions : OptionNames :=
  helpOptions ++ [("--config".toList, .settings), ("-v".toList, .verbose),
    ("--verbose".toList, .verbose)]

/-- How a command is written: its options, its slots, and what it asks for. -/
structure Form where
  /-- The options besides those that ask for an explanation. -/
  options : OptionNames
  /-- The places for plain words. -/
  slots : List Slot
  /-- The command that the arguments make. -/
  task : Arguments → Task

/-- The word in a slot. -/
def Arguments.word? (a : Arguments) (slot : Nat) : Option Text :=
  (a.values[slot]?).bind List.head?

/-- The path in a slot. -/
def Arguments.path (a : Arguments) (slot : Nat) (default : Path) : Path :=
  ((a.word? slot).map .ofText).getD default

/-- The path of the addon. -/
def Arguments.addon (a : Arguments) : Path :=
  a.path 0 (.ofText [])

/-- The options of the commands that write locale files. -/
def backupOptions : OptionNames :=
  [("--no-backup".toList, .noBackup)]

/-- The commands under their names. -/
def forms : List (Text × Form) :=
  [("report".toList, ⟨[], [.one], fun a => .report a.addon⟩),
    ("clean-orphans".toList,
      ⟨backupOptions, [.one], fun a => .cleanOrphans a.addon (!a.has .noBackup)⟩),
    ("clean-duplicates".toList,
      ⟨backupOptions, [.one], fun a => .cleanDuplicates a.addon (!a.has .noBackup)⟩),
    ("update-gt".toList,
      ⟨[], [.one, .optional], fun a =>
        .updateMachine a.addon ((a.word? 1).filter fun base => !base.isEmpty)⟩),
    ("restore".toList, ⟨[], [.one, .one], fun a => .restore a.addon ((a.word? 1).getD [])⟩),
    ("delete-backups".toList,
      ⟨[], [.one, .one], fun a => .deleteBackups a.addon ((a.word? 1).getD [])⟩),
    ("init-config".toList,
      ⟨[("--force".toList, .force)], [.optional], fun a =>
        .writeSample (a.path 0 defaultSettings) (a.has .force)⟩)]

/-- The command that words ask for, and the words that have no place. -/
def taskOf (words : List Text) : Except Stop (Task × List Text) :=
  match words with
  | [] => .error .misuse
  | name :: words =>
    match forms.lookup name with
    | none => .error .misuse
    | some form => do
      let a ← Arguments.ofWords (helpOptions ++ form.options) form.slots words
      return (form.task a, a.extras)

/-- What a command line asks for. A word that has no place makes it misunderstood. -/
def Invocation.ofWords (words : List Text) : Except Stop Invocation := do
  let shared ← Arguments.ofWords sharedOptions [.rest] words
  let (task, extras) ← taskOf shared.values.flatten
  if shared.extras.isEmpty && extras.isEmpty then
    return ⟨(shared.value? .settings).map .ofText, shared.has .verbose, task⟩
  else throw .misuse

end Phrasebook.Command
