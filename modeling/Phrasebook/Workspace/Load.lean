import Phrasebook.DataSet.Basic
import Phrasebook.Workspace.Scan

/-!
# Loading a localization directory

The locale files of a directory are those whose name is a code of the catalog, in whatever case.
The files of machine translations have a name for each base locale and are loaded beside them.
-/

namespace Phrasebook.Scanner

/-- The ends of the names of files that are no locale files. -/
def machineEndings : List Text :=
  ["GT.lua".toList]

/-- Whether the name of a file has one of the given ends, up to case. -/
def hasEnding (name : Text) (endings : List Text) : Bool :=
  endings.any fun ending => Text.endsWith (Text.fold name) (Text.fold ending)

/-- The data set with what a file of the directory holds, if it is a locale file. -/
def loadFile (s : Scanner) (endings : List Text) (d : DataSet) (path : Text) : Job DataSet := do
  let name := (Path.ofText path).name
  if hasEnding name endings then return d
  match Locale.canonical? (Path.stem name) with
  | none =>
    Job.record .debug ("Skipping non-locale file ".toList ++ name)
    return d
  | some code =>
    let entries ← s.entries path
    Job.record .debug ("Loaded ".toList ++ Text.ofNat entries.texts.size ++
      " translations for ".toList ++ code)
    return d.addLocale code entries.texts entries.duplicates

/-- The texts of all locale files of a directory, without the files that have one of the given
ends. -/
def loadDirectory (s : Scanner) (directory : Text) (endings : List Text) : Job DataSet := do
  Files.requireDirectory "Directory not found: ".toList directory
  let paths ← Files.find directory sourcePattern false
  let d ← paths.foldlM (s.loadFile endings) DataSet.empty
  Job.record .info ("Loaded ".toList ++ Text.ofNat d.codes.length ++ " locales from ".toList ++
    directory ++ " (".toList ++ Text.ofNat d.known.size ++ " keys)".toList)
  return d

/-- The data set and the number of loaded files with the machine translations of a base locale, if
it has a file. -/
def loadMachineFile (s : Scanner) (directory : Text) (loaded : DataSet × Nat) (base : Text) :
    Job (DataSet × Nat) := do
  let path := Files.inDirectory directory (Locale.machineFile base)
  if ← Files.isFile path then
    let entries ← s.entries path
    return (loaded.1.addMachine base entries.texts, loaded.2 + 1)
  else
    Job.record .debug ("No GT file for ".toList ++ base)
    return loaded

/-- The data set with the machine translations of all base locales, and the number of their
files. -/
def loadMachineFiles (s : Scanner) (directory : Text) (d : DataSet) : Job (DataSet × Nat) := do
  Files.requireDirectory "Directory not found: ".toList directory
  Locale.machineBases.foldlM (s.loadMachineFile directory) (d, 0)

end Phrasebook.Scanner
