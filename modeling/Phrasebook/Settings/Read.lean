import Phrasebook.Settings.Basic
import Phrasebook.Settings.Check

/-!
# Reading settings

Settings are read from a map of sections, each of which is a map of fields. Fields that are left
out have their defaults, and unknown fields do not count; an unknown section is a problem.
-/

namespace Phrasebook

namespace Readers

/-- What is read from the value below a name in a map, or a default. -/
def within {α : Type} (v : Value) (name : String) (default : α) (read : Value → Checked α) :
    Checked α :=
  match v.get? name.toList with
  | some found => .below name.toList (read found)
  | none => .valid default

/-- A single value below a name in a map, or a default. -/
def single {α : Type} (v : Value) (name : String) (default : α)
    (read : Value → Except ProblemKind α) : Checked α :=
  within v name default fun found => .ofExcept (read found)

/-- A section of a kind, which has to be a map. -/
def mapOf {α : Type} (kind : String) (read : Value → Checked α) (v : Value) : Checked α :=
  match v with
  | .map _ => read v
  | _ => .ofExcept (.error (.notSection kind.toList))

end Readers

open Readers

/-- Read how sources are scanned. -/
def ScanSettings.read : Value → Checked ScanSettings :=
  mapOf "ScanConfig" fun v =>
    let standard : ScanSettings := {}
    ScanSettings.mk
      <$> single v "lookup_identifier" standard.table name
      <*> single v "source_pattern" standard.pattern text
      <*> within v "exclude_subdirectories" standard.excluded texts
      <*> within v "template_functions" standard.templateFunctions texts
      <*> single v "location_cap" standard.cap (intBetween 1 10000)

/-- Read where the locale files are and how they are written. -/
def FileSettings.read : Value → Checked FileSettings :=
  mapOf "LocaleFilesConfig" fun v =>
    let standard : FileSettings := {}
    FileSettings.mk
      <$> single v "directory" standard.directory filledText
      <*> single v "create_backups" standard.keepsBackups truth
      <*> single v "addon_namespace" standard.addon filledText
      <*> single v "table_expression" standard.expression filledText
      <*> within v "gt_exclude_patterns" standard.otherEndings texts
      <*> single v "max_concurrent_saves" standard.maxSaves (intBetween 1 32)

/-- Read which service translates, and how it is asked. -/
def TranslationSettings.read : Value → Checked TranslationSettings :=
  mapOf "TranslationConfig" fun v =>
    let standard : TranslationSettings := {}
    TranslationSettings.mk
      <$> single v "api_key" standard.key text?
      <*> single v "endpoint" standard.endpoint address
      <*> single v "batch_size" standard.batchSize (intBetween 1 128)
      <*> single v "batch_delay_seconds" standard.pause (doubleUpTo 60)
      <*> single v "timeout_seconds" standard.patience (positiveUpTo 300)

/-- Read what is told about the work. -/
def JournalSettings.read : Value → Checked JournalSettings :=
  mapOf "LoggingConfig" fun v =>
    let standard : JournalSettings := {}
    JournalSettings.mk
      <$> single v "level" standard.level Readers.level
      <*> single v "file" standard.file text?

namespace Settings

/-- The names of the sections. -/
def sections : List Text :=
  ["scan", "locale_files", "translation", "logging"].map String.toList

/-- The problem of a key that names no section, if it is one. -/
def keyProblem? (key : Value) : Option Problem :=
  match key with
  | .text name => if sections.contains name then none else some ⟨[name], .unknown⟩
  | key => some ⟨[key.keyText], .notTextKey⟩

/-- Whether all keys name sections. -/
def checkKeys (entries : List (Value × Value)) : Checked Unit :=
  match entries.filterMap fun entry => keyProblem? entry.1 with
  | [] => .valid ()
  | problems => .faulty problems

/-- All settings, with their problems in the order in which they are found. -/
def check (v : Value) : Checked Settings :=
  match v with
  | .map entries =>
    let standard : Settings := {}
    Settings.mk
      <$> within v "scan" standard.scan ScanSettings.read
      <*> within v "locale_files" standard.files FileSettings.read
      <*> within v "translation" standard.translation TranslationSettings.read
      <*> within v "logging" standard.journal JournalSettings.read
      <* checkKeys entries
  | _ => .ofExcept (.error (.notSection "AddonLocalizerConfig".toList))

/-- The value of an outcome, or its problems in the order of their places. -/
def settle {α : Type} : Checked α → Except (List Problem) α
  | .valid a => .ok a
  | .faulty problems => .error (Problem.sort problems)

/-- All settings, or the problems in the order of their places. -/
def read (v : Value) : Except (List Problem) Settings :=
  settle (check v)

/-- The settings with a section read anew. -/
def checkAssign (s : Settings) (name : Text) (v : Value) : Checked Settings :=
  if name = "scan".toList then
    .below name ((fun scan => { s with scan }) <$> ScanSettings.read v)
  else if name = "locale_files".toList then
    .below name ((fun files => { s with files }) <$> FileSettings.read v)
  else if name = "translation".toList then
    .below name ((fun translation => { s with translation }) <$> TranslationSettings.read v)
  else if name = "logging".toList then
    .below name ((fun journal => { s with journal }) <$> JournalSettings.read v)
  else .faulty [⟨[name], .unassignable name⟩]

/-- The settings with a section read anew, or the problems in the order of their places. -/
def assign (s : Settings) (name : Text) (v : Value) : Except (List Problem) Settings :=
  settle (s.checkAssign name v)

end Settings

end Phrasebook
