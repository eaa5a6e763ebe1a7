import Phrasebook.Disk.Basic
import Phrasebook.Document.Read
import Phrasebook.Settings.Read

/-!
# Settings files

A settings file holds one document, whose value is the map of sections. An empty file stands for
the defaults.
-/

namespace Phrasebook

/-- Why a settings file cannot be used. -/
inductive SettingsFault where
  /-- There is no such file. -/
  | missing (path : Text)
  /-- The system refuses to read the file. -/
  | disk (refusal : DiskRefusal) (path : Text)
  /-- The file is no UTF-8. -/
  | undecodable (f : Text.Utf8Fault)
  /-- The document has no value. -/
  | document (f : Document.Fault)
  /-- The value is not a map but of another kind. -/
  | notMap (kind : Text)
  /-- The values have problems. -/
  | problems (problems : List Problem)
  deriving DecidableEq

/-- The name of the kind of a value. -/
def Value.kindName : Value → Text
  | .null => "NoneType".toList
  | .bool _ => "bool".toList
  | .int _ => "int".toList
  | .double _ => "float".toList
  | .text _ => "str".toList
  | .date _ => "date".toList
  | .moment _ => "datetime".toList
  | .list _ => "list".toList
  | .map _ => "dict".toList

/-- A problem with its place in a line. -/
def Problem.text (p : Problem) : Text :=
  Text.join ['.'] p.place ++ ": ".toList ++ p.kind.message

/-- The message about a fault. -/
def SettingsFault.message : SettingsFault → Text
  | .missing path => "Configuration file not found: ".toList ++ path
  | .disk refusal path => refusal.text ++ ": ".toList ++ path
  | .undecodable f => f.message
  | .document f => f.message
  | .notMap kind => "Configuration file must contain a YAML dictionary, got ".toList ++ kind
  | .problems ps => Text.join "; ".toList (ps.map Problem.text)

namespace Settings

/-- The settings that the value of a document holds. -/
def ofValue (v : Option Value) : Except SettingsFault Settings :=
  match v.getD .null with
  | .null => .ok {}
  | .map entries => (read (.map entries)).mapError .problems
  | v => .error (.notMap v.kindName)

/-- The settings of a file. -/
def load (d : Disk) (path : Path) : Except SettingsFault Settings := do
  if !d.exists? path then throw (.missing path.text)
  let content ← (d.read path).mapError (.disk · path.text)
  let t ← (Text.decode content).mapError .undecodable
  ofValue (← (Document.read t).mapError .document)

end Settings

end Phrasebook
