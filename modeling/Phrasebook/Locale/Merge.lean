import Phrasebook.Glue.Assignment
import Phrasebook.Journal
import Phrasebook.Key.Set
import Phrasebook.Locale.Guard

/-!
# Writing a locale file

A new file has a header, a guard and one assignment for each text. An existing file is edited by
hand as well, so only the literal assignments of its region change: inside the guard, or from the
first to the last assignment of a file without a guard. Every other line is copied. A blank text
removes its key, a repeated assignment is dropped, and keys that are new come at the end of the
region in key order. A key that the texts do not mention stays in a guarded file and goes from an
unguarded one.
-/

namespace Phrasebook.Locale

/-- How locale files are written. -/
structure Style where
  /-- The name of the localization table. -/
  table : Text
  /-- The name of the addon's own table in the header. -/
  addon : Text
  /-- The expression that the localization table is bound to. -/
  expression : Text
  deriving DecidableEq, Repr

/-- The style when nothing else is configured. -/
def Style.default : Style :=
  ⟨"L".toList, "TRB".toList, "TRB.Localization".toList⟩

/-- The indent of the lines in a guard. -/
def guardIndent : Text :=
  "    ".toList

/-- A map with exact keys that has the entries of a map up to case. -/
def exactly (texts : KeyMap Text) : Dictionary Text :=
  ⟨texts.entries, List.pairwise_map.2 ((List.pairwise_map.1 texts.distinct).imp
    fun differ same => differ (congrArg Text.fold same))⟩

/-- The entries of a map in key order. -/
def sortedEntries {norm : Text → Text} (texts : Lexicon norm Text) : List (Text × Text) :=
  texts.entries.mergeSort fun a b => keyLe a.1 b.1

/-- The line that assigns a text to a key. -/
def Style.line (style : Style) (indent key value : Text) : Text :=
  Glue.Assignment.line ⟨key, value, indent⟩ style.table

/-- A comparison of the locale with one of several codes. -/
def condition (codes : List Text) : Text :=
  Text.join " or ".toList (codes.map fun code => "locale == \"".toList ++ code ++ ['"'])

/-- The lines of a new file for the given locales, whose texts follow the line `spacer`. -/
def newFile (style : Style) (codes : List Text) (texts : Dictionary Text) (spacer : Text) :
    List Text :=
  ["local _, ".toList ++ style.addon ++ " = ...".toList,
   [],
   "local locale = GetLocale()".toList,
   [],
   "if ".toList ++ condition codes ++ " then".toList,
   guardIndent ++ "local ".toList ++ style.table ++ " = ".toList ++ style.expression,
   spacer] ++
  ((sortedEntries texts).filter fun entry => !Text.isBlankText entry.2).map
    (fun entry => style.line guardIndent entry.1 entry.2) ++
  ["end".toList, []]

/-- The lines of a file whose assignments may be changed. -/
structure Region where
  /-- The position of the first line. -/
  start : Nat
  /-- The position after the last line. -/
  stop : Nat
  /-- Whether the lines stand inside a guard. -/
  guarded : Bool
  deriving DecidableEq, Repr

/-- Whether a line assigns a key. -/
def assignsKey (table : Text) (line : Text) : Bool :=
  (Glue.assignedKey? table line).isSome

/-- The lines between the first and the last that assign a key. -/
def assignedRegion? (table : Text) (lines : List Text) : Option Region :=
  match lines.findIdx? (assignsKey table) with
  | none => none
  | some start =>
    some ⟨start, lines.length - (lines.reverse.findIdx (assignsKey table)), false⟩

/-- The region of a file: its guarded block, or else the lines between its assignments. -/
def region? (table : Text) (lines : List Text) : Option Region :=
  match guardedBlock? lines with
  | some (start, stop) => some ⟨start + 1, stop, true⟩
  | none => assignedRegion? table lines

/-- What has been done with the lines of a region so far. -/
structure Edit where
  /-- The keys that need no further assignment. -/
  handled : KeySet
  /-- The lines that have been written. -/
  body : List Text
  /-- The indent of the first assignment. -/
  indent : Option Text
  /-- The number of repeated assignments that were dropped. -/
  repeated : Nat
  /-- The number of assignments that were removed with their keys. -/
  removed : Nat
  /-- What there is to tell about the lines. -/
  records : List Record

namespace Edit

/-- The state before the first line. -/
def start : Edit :=
  ⟨∅, [], none, 0, 0, []⟩

/-- Copy a line. -/
def copy (e : Edit) (line : Text) : Edit :=
  { e with body := e.body ++ [line] }

/-- Take note of a key that needs no further assignment. -/
def handle (e : Edit) (key : Text) : Edit :=
  { e with handled := e.handled.insert key }

/-- Remember the indent of the first assignment. -/
def seeIndent (e : Edit) (indent : Text) : Edit :=
  { e with indent := some (e.indent.getD indent) }

/-- Tell what happened to a key. -/
def tell (e : Edit) (what key : Text) : Edit :=
  { e with records := e.records ++ [⟨.debug, what ++ key⟩] }

/-- Take a line that is no literal assignment. It is copied, and a key that it computes is left to
it. -/
def computed (e : Edit) (table line : Text) : Edit :=
  match Glue.assignedKey? table line with
  | none => e.copy line
  | some key => ((e.handle key).seeIndent (Text.indent line)).copy line

/-- Take a literal assignment. -/
def assignment (e : Edit) (style : Style) (texts : KeyMap Text) (guarded : Bool) (line : Text)
    (a : Glue.Assignment) : Edit :=
  let e := e.seeIndent a.indent
  if e.handled.contains a.key then
    { e.tell "Skipping duplicate assignment: ".toList a.key with repeated := e.repeated + 1 }
  else
    match texts.get? a.key with
    | some text =>
      let e := e.handle a.key
      if Text.isBlankText text then
        { e.tell "Removing cleared key: ".toList a.key with removed := e.removed + 1 }
      else if text = a.value then e.copy line
      else e.copy (style.line a.indent a.key text)
    | none =>
      if guarded then (e.handle a.key).copy line
      else { e.tell "Removing orphaned key: ".toList a.key with removed := e.removed + 1 }

/-- Take one line of the region. -/
def step (style : Style) (texts : KeyMap Text) (guarded : Bool) (e : Edit) (line : Text) : Edit :=
  match Glue.assignment? style.table line with
  | none => e.computed style.table line
  | some a => e.assignment style texts guarded line a

/-- The texts that no line of the region took care of, in key order. -/
def missing (e : Edit) (texts : KeyMap Text) : List (Text × Text) :=
  (sortedEntries texts).filter fun entry =>
    !e.handled.contains entry.1 && !Text.isBlankText entry.2

/-- The indent of the assignments that are added. -/
def addedIndent (e : Edit) (guarded : Bool) : Text :=
  if guarded then guardIndent else e.indent.getD []

/-- The lines that are added behind the others. -/
def added (e : Edit) (style : Style) (texts : KeyMap Text) (guarded : Bool) : List Text :=
  (e.missing texts).map fun entry => style.line (e.addedIndent guarded) entry.1 entry.2

end Edit

/-- The edit of all lines of a region. -/
def editRegion (style : Style) (texts : KeyMap Text) (guarded : Bool) (lines : List Text) : Edit :=
  lines.foldl (Edit.step style texts guarded) .start

/-- The new lines of a region. -/
def mergeRegion (style : Style) (texts : KeyMap Text) (guarded : Bool) (lines : List Text) :
    List Text :=
  let edit := editRegion style texts guarded lines
  edit.body ++ edit.added style texts guarded

/-- The lines of a region in a file. -/
def Region.slice (region : Region) (lines : List Text) : List Text :=
  (lines.take region.stop).drop region.start

/-- The first line of a file in which there is nothing to edit. -/
def noAssignmentsWarning : Text :=
  "-- Warning: Could not find any L[\"key\"] assignments, preserving original file".toList

/-- The lines of an existing file with the given texts. -/
def mergeLines (style : Style) (lines : List Text) (texts : KeyMap Text) : List Text :=
  match region? style.table lines with
  | none => noAssignmentsWarning :: lines
  | some region =>
    lines.take region.start ++ mergeRegion style texts region.guarded (region.slice lines) ++
      lines.drop region.stop

/-- What there is to tell about a merge. -/
def mergeRecords (style : Style) (lines : List Text) (texts : KeyMap Text) : List Record :=
  match region? style.table lines with
  | none =>
    [⟨.warning, "No locale guard or assignments found, preserving original file".toList⟩]
  | some region =>
    let edit := editRegion style texts region.guarded (region.slice lines)
    edit.records ++
      [⟨.debug, "Merged locale file: ".toList ++ Text.ofNat (edit.missing texts).length ++
        " keys appended, ".toList ++ Text.ofNat edit.repeated ++
        " duplicates collapsed, ".toList ++ Text.ofNat edit.removed ++ " lines removed".toList⟩]

/-- Whether a file is written anew: it does not exist, or all of its lines are blank. -/
def isFresh (existing : Option (List Text)) : Bool :=
  match existing with
  | none => true
  | some lines => lines.all Text.isBlankText

/-- A map up to case with the entries of a map with exact keys: of keys that differ only in case
the first spelling and the last text remain. -/
def upToCase (texts : Dictionary Text) : KeyMap Text :=
  .ofList texts.entries

/-- The lines of the file of a locale with the given texts. -/
def fileLines (style : Style) (code : Text) (texts : Dictionary Text)
    (existing : Option (List Text)) : List Text :=
  if isFresh existing then newFile style [code] texts guardIndent
  else mergeLines style (existing.getD []) (upToCase texts)

/-- What there is to tell about the writing of the file of a locale. -/
def fileRecords (style : Style) (texts : Dictionary Text) (existing : Option (List Text)) :
    List Record :=
  if isFresh existing then [] else mergeRecords style (existing.getD []) (upToCase texts)

end Phrasebook.Locale
