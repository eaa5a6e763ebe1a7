import Phrasebook.Text.Basic

/-!
# Journal records

What the program tells about its work: records of a level, in order. A console shows the records
that reach its own level.
-/

namespace Phrasebook

/-- How important a record is. -/
inductive Level where
  | debug
  | info
  | warning
  | error
  | critical
  deriving DecidableEq, Repr

namespace Level

/-- The place of a level in the order of importance. -/
def rank : Level → Nat
  | .debug => 0
  | .info => 1
  | .warning => 2
  | .error => 3
  | .critical => 4

/-- The name of a level, in capitals. -/
def name : Level → Text
  | .debug => "DEBUG".toList
  | .info => "INFO".toList
  | .warning => "WARNING".toList
  | .error => "ERROR".toList
  | .critical => "CRITICAL".toList

/-- All levels in increasing order. -/
def all : List Level :=
  [.debug, .info, .warning, .error, .critical]

/-- The level with a name. -/
def ofName? (name : Text) : Option Level :=
  all.find? (·.name = name)

end Level

/-- A message with its level. -/
structure Record where
  /-- The level of the message. -/
  level : Level
  /-- The message. -/
  message : Text
  deriving DecidableEq, Repr

/-- Whether a console at a level shows a record. -/
def Record.isShownAt (r : Record) (level : Level) : Bool :=
  level.rank ≤ r.level.rank

/-- A record as the console shows it. -/
def Record.text (r : Record) : Text :=
  r.level.name ++ " - ".toList ++ r.message

end Phrasebook
