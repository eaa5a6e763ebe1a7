import Phrasebook.Glue.Summary
import Phrasebook.Locale.Entries
import Phrasebook.Path.Exclusion
import Phrasebook.Workspace.Files

/-!
# Scanning files

The references in one source file or in all source files of a directory, and what single files
define and use.
-/

namespace Phrasebook

/-- What source files are scanned for. -/
structure Scanner where
  /-- The references that are looked for. -/
  patterns : Glue.Patterns
  /-- The cap on the places of each key. -/
  cap : Int
  deriving DecidableEq, Repr

/-- The pattern of source files. -/
def sourcePattern : Text :=
  "*.lua".toList

namespace Scanner

/-- The summary of a file. -/
def scanFile (s : Scanner) (path : Text) : Job Glue.Summary := do
  Files.requireFile path
  let summary := Glue.Summary.ofLines s.patterns s.cap path (← Files.readLines path)
  Job.record .debug ("Found ".toList ++ Text.ofNat summary.infos.size ++ " glue strings in ".toList ++
    path)
  return summary

/-- The summaries of several files in one, after what is known already. -/
def scanFiles (s : Scanner) : Glue.Summary → List Text → Job Glue.Summary
  | known, [] => return known
  | known, path :: paths => do
    let summary ← s.scanFile path
    s.scanFiles (known.merge summary) paths

/-- The summary of all files below a directory that have a name of the pattern and lie under no
excluded directory. -/
def scanDirectory (s : Scanner) (directory : Text) (exclusions : List Text) (pattern : Text) :
    Job Glue.Summary := do
  Files.requireDirectory "Directory not found: ".toList directory
  let paths ← Files.find directory pattern true
  let paths := paths.filter fun path => !Path.isExcluded path directory exclusions
  let summary ← s.scanFiles (.empty s.cap) paths
  Job.record .info ("Scanned ".toList ++ Text.ofNat paths.length ++ " Lua files in ".toList ++
    directory ++ ": ".toList ++ Text.ofNat summary.infos.size ++ " glue strings".toList)
  return summary

/-- The keys that a file assigns. -/
def definitions (s : Scanner) (path : Text) : Job KeySet := do
  Files.requireFile path
  return Locale.definedKeys s.patterns.table (← Files.readLines path)

/-- The keys that a file looks up in the values of assignments. -/
def usages (s : Scanner) (path : Text) : Job KeySet := do
  Files.requireFile path
  return Locale.usedKeys s.patterns (← Files.readLines path)

/-- The specifiers of the texts that a file assigns. -/
def specifiers (s : Scanner) (path : Text) : Job (KeyMap (List Format.Specifier)) := do
  Files.requireFile path
  match Locale.specifiersByKey s.patterns.table (← Files.readLines path) with
  | .ok specifiers => return specifiers
  | .error fault => throw (.digits fault)

/-- The entries of a locale file. -/
def entries (s : Scanner) (path : Text) : Job Locale.Entries := do
  Files.requireFile path
  let entries := Locale.Entries.ofLines s.patterns.table (← Files.readLines path)
  unless entries.duplicates.isEmpty do
    Job.record .debug (Text.ofNat entries.duplicates.size ++ " duplicate keys in ".toList ++ path)
  return entries

end Scanner

end Phrasebook
