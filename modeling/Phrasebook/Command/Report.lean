import Phrasebook.Command.Session
import Phrasebook.Number.Fixed
import Phrasebook.Text.Quoted

/-!
# Reports

A report tells how many keys the sources use, which of them the source locale lacks, and for each
locale how much of it is translated, how many of its keys are orphans, and which are assigned more
than once.
-/

namespace Phrasebook.Report

/-- The kinds of the arguments that a text takes. -/
def kindsText (specifiers : List Format.Specifier) : Text :=
  match specifiers.filter (·.takesArgument) with
  | [] => "none".toList
  | taken => Text.join ", ".toList (taken.map (·.kind.name))

/-- The line about a key that is the argument of a template function. -/
def templateLine (info : Glue.Info) : Text :=
  "    ".toList ++ info.key ++ ": ".toList ++ Text.ofNat info.argumentCount ++
    " parameters (".toList ++ kindsText info.specifiers ++ ")".toList

/-- The records of template arguments in the order of their folded keys. -/
def sortedTemplates (summary : Glue.Summary) : List Glue.Info :=
  summary.templates.mergeSort fun a b => Text.le (Text.fold a.key) (Text.fold b.key)

/-- The lines about the sources. -/
def sourceLines (summary : Glue.Summary) : List Text :=
  ["Glue strings: ".toList ++ Text.ofNat summary.infos.size ++ " (".toList ++
      Text.ofNat summary.total ++ " occurrences)".toList,
    "  concatenated: ".toList ++ Text.ofNat summary.joined.length,
    "  used as templates: ".toList ++ Text.ofNat summary.templates.length] ++
    (sortedTemplates summary).map templateLine

/-- The used keys that the source locale lacks, in key order. -/
def missingKeys (valid : KeySet) (texts : KeyMap Text) : List Text :=
  sortKeys (valid.keys.filter fun key => !texts.contains key)

/-- The lines about the keys that the source locale lacks. -/
def missingLines (valid : KeySet) (d : DataSet) : List Text :=
  match d.texts.get? Locale.source with
  | none => []
  | some texts =>
    let missing := missingKeys valid texts
    ("Missing from ".toList ++ Locale.source ++ ": ".toList ++ Text.ofNat missing.length) ::
      missing.map ("  ".toList ++ ·)

/-- The line about a key that is assigned more than once. -/
def duplicateLine (duplicate : Locale.Duplicate) : Text :=
  "    duplicate ".toList ++ duplicate.key ++ " x".toList ++
    Text.ofNat duplicate.values.length ++ " -> ".toList ++
    Text.quoted (duplicate.final?.getD [])

/-- The lines about a locale. -/
def localeLines (valid : KeySet) (d : DataSet) (code : Text) : List Text :=
  let duplicates := d.duplicatesOf code
  ("  ".toList ++ code ++ ": ".toList ++ Text.ofNat (d.count code) ++ " keys, ".toList ++
      (d.coverage code).percent.fixed 1 ++ "% coverage, ".toList ++
      Text.ofNat (d.orphans code valid).length ++ " orphaned, ".toList ++
      Text.ofNat duplicates.length ++ " duplicated".toList) ::
    duplicates.map duplicateLine

/-- The line about the machine translations of a base locale. -/
def machineLine (d : DataSet) (base : Text) : Text :=
  "  GT ".toList ++ base ++ ": ".toList ++ Text.ofNat (d.machineCount base) ++ " keys".toList

/-- The lines of a report. -/
def lines (summary : Glue.Summary) (d : DataSet) : List Text :=
  let valid := summary.keys
  sourceLines summary ++ missingLines valid d ++ ["Locales:".toList] ++
    d.codes.flatMap (localeLines valid d) ++ d.bases.map (machineLine d)

/-- Show a report. -/
def run (s : Session) : Job Unit := do
  let summary ← s.scan
  let d ← s.load
  (lines summary d).forM Job.print

end Phrasebook.Report
