import Phrasebook.Text.Basic

/-!
# Failures

What can go wrong in the work of this program, with a text for the log and one for people. The
cause decides how a failure is classified and whether the work can go on.
-/

namespace Phrasebook

/-- What kind of failure it is, for those who handle it. -/
inductive Category where
  | notFound
  | invalidArgument
  | batch
  | provider
  | configuration
  | unknown
  deriving DecidableEq, Repr

/-- The name under which a category is reported. -/
def Category.name : Category → Text
  | .notFound => "not_found".toList
  | .invalidArgument => "invalid_argument".toList
  | .batch => "batch".toList
  | .provider => "provider".toList
  | .configuration => "configuration".toList
  | .unknown => "unknown".toList

/-- The category with a name. -/
def Category.ofName? (name : Text) : Option Category :=
  [notFound, invalidArgument, batch, provider, configuration, unknown].find? (·.name = name)

/-- How bad a failure is. -/
inductive Severity where
  | low
  | medium
  | high
  | critical
  deriving DecidableEq, Repr

/-- The name under which a severity is reported. -/
def Severity.name : Severity → Text
  | .low => "low".toList
  | .medium => "medium".toList
  | .high => "high".toList
  | .critical => "critical".toList

/-- The severity with a name. -/
def Severity.ofName? (name : Text) : Option Severity :=
  [low, medium, high, critical].find? (·.name = name)

/-- What a failure is about. -/
inductive Subject where
  /-- A text, such as a path or a code. -/
  | text (value : Text)
  /-- Pairs of texts, such as codes and what happened to them. -/
  | pairs (values : List (Text × Text))
  deriving DecidableEq, Repr

/-- Why the work failed. -/
inductive Cause where
  /-- No particular cause. -/
  | general
  /-- A file or directory does not exist. -/
  | notFound (path : Option Text)
  /-- A locale code is not in the catalog, or named twice. -/
  | invalidLocale (code : Text)
  /-- Some files of a batch could not be saved: what happened to them, and which codes were saved
  and skipped. -/
  | batchSave (failures : List (Text × Text)) (completed skipped : List Text)
  /-- The translation service cannot be used. -/
  | provider
  /-- The settings cannot be used. -/
  | configuration
  deriving DecidableEq, Repr

/-- A failure of the work. -/
structure Failure where
  /-- Why it came to the failure. -/
  cause : Cause
  /-- The text for the log. -/
  message : Text
  /-- The kind of failure. -/
  category : Category
  /-- How bad it is. -/
  severity : Severity
  /-- The text for people. -/
  userMessage : Text
  /-- What it is about. -/
  subject : Option Subject
  /-- Whether the work can go on. -/
  recoverable : Bool
  deriving DecidableEq, Repr

namespace Failure

/-- The text for people, which is the message unless another one is given. -/
def userText (userMessage : Option Text) (message : Text) : Text :=
  match userMessage with
  | some (c :: t) => c :: t
  | _ => message

/-- A failure without a particular cause. -/
def general (message : Text) (category : Category) (severity : Severity)
    (userMessage : Option Text) (subject : Option Subject) (recoverable : Bool) : Failure :=
  ⟨.general, message, category, severity, userText userMessage message, subject, recoverable⟩

/-- A file or directory does not exist. -/
def notFound (message : Text) (path userMessage : Option Text) : Failure :=
  ⟨.notFound path, message, .notFound, .high, userText userMessage message, path.map .text, false⟩

/-- A locale code cannot be used. -/
def invalidLocale (code : Text) (userMessage : Option Text) : Failure :=
  let message := "Invalid locale code: ".toList ++ code
  ⟨.invalidLocale code, message, .invalidArgument, .low, userText userMessage message,
    some (.text code), false⟩

/-- Some files of a batch could not be saved. -/
def batchSave (failures : List (Text × Text)) (completed skipped : List Text) : Failure :=
  let codes := Text.join ", ".toList (Text.sort (failures.map (·.1)))
  let message := "Failed to save ".toList ++ Text.ofNat failures.length ++
    " locale file(s): ".toList ++ codes
  ⟨.batchSave failures completed skipped, message, .batch, .high, message, some (.pairs failures),
    true⟩

/-- The translation service cannot be used. -/
def provider (message : Text) (userMessage : Option Text) (subject : Option Subject) : Failure :=
  ⟨.provider, message, .provider, .medium, userText userMessage message, subject, true⟩

/-- The settings cannot be used. -/
def configuration (message : Text) (userMessage : Option Text) (subject : Option Subject) :
    Failure :=
  ⟨.configuration, message, .configuration, .high, userText userMessage message, subject, false⟩

end Failure

end Phrasebook
