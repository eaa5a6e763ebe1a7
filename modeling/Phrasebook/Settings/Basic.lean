import Phrasebook.Data.Value
import Phrasebook.Journal
import Phrasebook.Translation.Exchange

/-!
# Settings

What a user can choose: how sources are scanned, where the locale files are and how they are
written, which service translates, and what is told about the work. Every choice has a default.
-/

namespace Phrasebook

/-- How sources are scanned. -/
structure ScanSettings where
  /-- The name of the table of localized texts. -/
  table : Text := "L".toList
  /-- The search pattern of source files. -/
  pattern : Text := "*.lua".toList
  /-- The directories that are not scanned. -/
  excluded : List Text := ["Libs".toList, "Localization".toList]
  /-- The functions whose first argument is a template. -/
  templateFunctions : List Text := ["string.format".toList]
  /-- The greatest number of places that are kept for each key. -/
  cap : Int := 100
  deriving DecidableEq, Repr

/-- Where the locale files are and how they are written. -/
structure FileSettings where
  /-- The directory of the locale files. -/
  directory : Text := "Localization".toList
  /-- Whether a file is kept as a backup before it is overwritten. -/
  keepsBackups : Bool := true
  /-- The name of the addon's own table in new files. -/
  addon : Text := "TRB".toList
  /-- The expression for the table of localized texts in new files. -/
  expression : Text := "TRB.Localization".toList
  /-- The ends of the names of files that are no locale files. -/
  otherEndings : List Text := ["GT.lua".toList]
  /-- The greatest number of files that are saved at the same time. -/
  maxSaves : Int := 4
  deriving DecidableEq, Repr

/-- Which service translates, and how it is asked. -/
structure TranslationSettings where
  /-- The key for the service. -/
  key : Option Text := none
  /-- The address of the service. -/
  endpoint : Text := Translation.defaultEndpoint
  /-- The greatest number of texts in a request. -/
  batchSize : Int := 100
  /-- The pause between requests in seconds. -/
  pause : Double := .ofDecimal false 1 (-1)
  /-- How many seconds a request may take. -/
  patience : Double := .ofInt 30
  deriving DecidableEq, Repr

/-- What is told about the work. -/
structure JournalSettings where
  /-- The level from which on records are shown. -/
  level : Level := .info
  /-- The file that the records are written to. -/
  file : Option Text := none
  deriving DecidableEq, Repr

/-- All settings. -/
structure Settings where
  scan : ScanSettings := {}
  files : FileSettings := {}
  translation : TranslationSettings := {}
  journal : JournalSettings := {}
  deriving DecidableEq, Repr

/-- A map with texts as keys. -/
def Value.record (fields : List (String × Value)) : Value :=
  .map (fields.map fun field => (.text field.1.toList, field.2))

/-- A list of texts. -/
def Value.texts (ts : List Text) : Value :=
  .list (ts.map .text)

/-- A text or nothing. -/
def Value.ofText? : Option Text → Value
  | some t => .text t
  | none => .null

/-- The settings of a section as a map. -/
def ScanSettings.value (s : ScanSettings) : Value :=
  .record [("lookup_identifier", .text s.table), ("source_pattern", .text s.pattern),
    ("exclude_subdirectories", .texts s.excluded),
    ("template_functions", .texts s.templateFunctions), ("location_cap", .int s.cap)]

/-- The settings of a section as a map. -/
def FileSettings.value (s : FileSettings) : Value :=
  .record [("directory", .text s.directory), ("create_backups", .bool s.keepsBackups),
    ("addon_namespace", .text s.addon), ("table_expression", .text s.expression),
    ("gt_exclude_patterns", .texts s.otherEndings), ("max_concurrent_saves", .int s.maxSaves)]

/-- The settings of a section as a map. -/
def TranslationSettings.value (s : TranslationSettings) : Value :=
  .record [("api_key", .ofText? s.key), ("endpoint", .text s.endpoint),
    ("batch_size", .int s.batchSize), ("batch_delay_seconds", .double s.pause),
    ("timeout_seconds", .double s.patience)]

/-- The settings of a section as a map. -/
def JournalSettings.value (s : JournalSettings) : Value :=
  .record [("level", .text s.level.name), ("file", .ofText? s.file)]

/-- The settings as a map of sections. -/
def Settings.value (s : Settings) : Value :=
  .record [("scan", s.scan.value), ("locale_files", s.files.value),
    ("translation", s.translation.value), ("logging", s.journal.value)]

end Phrasebook
