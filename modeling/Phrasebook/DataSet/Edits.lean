import Phrasebook.DataSet.Basic
import Phrasebook.Failure

/-!
# Edits

An edit gives a key a text in a locale, or a machine translation in the base locale of its code.
A list of edits is applied as a whole: one edit of an unknown locale refuses all of them. Machine
translations are promoted by edits that copy them into a locale.
-/

namespace Phrasebook

/-- A new text for a key. -/
structure TextEdit where
  /-- The key. -/
  key : Text
  /-- The locale, or for a machine translation also a base locale. -/
  code : Text
  /-- The text; a blank one removes the key when the file is saved. -/
  value : Text
  /-- Whether the text is a machine translation. -/
  machine : Bool
  deriving DecidableEq, Repr

namespace DataSet

/-- The data set with the text of a key in a locale set; a missing locale is added. -/
def setText (d : DataSet) (key code value : Text) : DataSet where
  texts := d.texts.insert code (((d.texts.get? code).getD ∅).insert key value)
  machine := d.machine
  duplicates := if d.texts.contains code then d.duplicates else d.duplicates.insert code ∅
  known := d.known.insert key

/-- The data set with the machine translation of a key in a base locale set; a missing base locale
is added. -/
def setMachineText (d : DataSet) (key base value : Text) : DataSet :=
  { d with machine := d.machine.insert base (((d.machine.get? base).getD ∅).insert key value) }

/-- The base locale that a machine translation goes to: that of its code, or the code itself when
it is unknown. -/
def machineTarget (code : Text) : Text :=
  (Locale.base? code).getD code

/-- The data set after one edit. -/
def applyEdit (d : DataSet) (edit : TextEdit) : Except Failure DataSet :=
  if edit.machine then .ok (d.setMachineText edit.key (machineTarget edit.code) edit.value)
  else
    match Locale.canonical? edit.code with
    | some code => .ok (d.setText edit.key code edit.value)
    | none => .error (.invalidLocale edit.code none)

/-- A copy of the data set after a list of edits. -/
def applyEdits (d : DataSet) (edits : List TextEdit) : Except Failure DataSet :=
  edits.foldlM applyEdit d.copy

/-- Whether there is no text, or a blank one. -/
def isUntranslated (text : Option Text) : Bool :=
  text.all Text.isBlankText

/-- The keys whose machine translations are promoted into a locale: those asked for, or by default
those without a text there. -/
def promotable (d : DataSet) (machine : KeyMap Text) (code : Text) (keys : Option (List Text)) :
    List Text :=
  match keys with
  | some keys => keys.filter machine.contains
  | none => machine.keys.filter fun key => isUntranslated (d.text? key code)

/-- The edit that promotes the machine translation of a key, unless that is blank. -/
def promotion? (machine : KeyMap Text) (code key : Text) : Option TextEdit :=
  match machine.find? key with
  | none => none
  | some (spelling, value) =>
    if Text.isBlankText value then none
    else some ⟨if spelling.isEmpty then key else spelling, code, value, false⟩

/-- The edits that copy machine translations into a locale. -/
def promotions (d : DataSet) (code : Text) (keys : Option (List Text)) :
    Except Failure (List TextEdit) :=
  match Locale.base? code with
  | none => .error (.invalidLocale code none)
  | some base =>
    match d.machine.get? base with
    | none => .ok []
    | some machine =>
      .ok ((sortKeys (d.promotable machine code keys)).filterMap (promotion? machine code))

end DataSet

end Phrasebook
