import Phrasebook.Disk.Find
import Phrasebook.Disk.Replace
import Phrasebook.Failure
import Phrasebook.Journal
import Phrasebook.Number.Share
import Phrasebook.Text.Digit
import Phrasebook.Translation.Exchange

/-!
# Jobs

A job works on a world: a disk, a clock, a translation service, and a trace of everything that the
job has shown or asked for. It ends with a result or with a fault, and what it did to the world up
to a fault stays done.
-/

namespace Phrasebook

/-- Why a job ends without a result. -/
inductive Fault where
  /-- A failure of the program's own work. -/
  | failure (f : Failure)
  /-- A file cannot be written. -/
  | write (path : Text) (fault : Disk.ReplaceFault)
  /-- The system refuses to work with a path. -/
  | disk (refusal : DiskRefusal) (path : Text)
  /-- A file is no UTF-8. -/
  | undecodable (f : Text.Utf8Fault)
  /-- A search pattern is refused. -/
  | pattern (f : PatternFault)
  /-- A number in a specifier has too many digits. -/
  | digits (f : Text.DigitFault)
  /-- All attempts at a request are used up before the first one. -/
  | noAttempts
  /-- The pause before another attempt at a request would be longer than any number of 64 bits. -/
  | endlessPause
  deriving DecidableEq

/-- The message about a refused search pattern. -/
def PatternFault.message : PatternFault → Text
  | .empty => "Unacceptable pattern: ''".toList
  | .absolute => "Non-relative patterns are unsupported".toList
  | .starsInName => "Invalid pattern: '**' can only be an entire path component".toList
  | .noName => "The pattern names nothing".toList
  | .noNameSlash => "The pattern names nothing below the directory".toList

/-- The message about a fault. -/
def Fault.message : Fault → Text
  | .failure f => f.message
  | .write path fault => "Failed to write ".toList ++ path ++ ": ".toList ++ fault.message
  | .disk refusal path => refusal.text ++ ": ".toList ++ Text.quoted path
  | .undecodable f => f.message
  | .pattern f => f.message
  | .digits f => f.message
  | .noAttempts => "Maximum retries exceeded".toList
  | .endlessPause => "(34, 'Numerical result out of range')".toList

/-- The progress of a batch of saves, reported after each locale. -/
structure SaveProgress where
  /-- The locale that was dealt with. -/
  code : Text
  /-- The number of locales saved so far. -/
  processed : Nat
  /-- The number of locales to save. -/
  total : Nat
  /-- Whether all of them are saved. -/
  isComplete : Bool
  /-- What went wrong with the locale. -/
  error : Option Text
  deriving DecidableEq, Repr

/-- The progress of a batch translation, reported after each batch. -/
structure TranslationProgress where
  /-- The number of texts translated so far. -/
  processed : Nat
  /-- The number of texts to translate. -/
  total : Nat
  /-- The last text of a batch that was translated. -/
  current : Option Text
  /-- What went wrong with the batch. -/
  error : Option Text
  deriving DecidableEq, Repr

/-- Something that a job shows or asks for. -/
inductive Event where
  /-- A record for the journal. -/
  | recorded (r : Record)
  /-- A text on the screen. -/
  | printed (t : Text)
  /-- A request to the translation service. -/
  | requested (r : Translation.Request)
  /-- A pause of some seconds. -/
  | slept (seconds : Double)
  /-- A report of a batch of saves. -/
  | saved (p : SaveProgress)
  /-- A report of a batch translation. -/
  | translated (p : TranslationProgress)
  deriving DecidableEq, Repr

/-- A step on the way of replacing a file that the system refuses for reasons of its own. -/
structure Refusal where
  /-- The path of the file. -/
  path : Text
  /-- The step that is refused. -/
  stage : Disk.Stage
  /-- The words of the system. -/
  cause : Text
  deriving DecidableEq, Repr

/-- What a job works on. -/
structure World where
  /-- The files. -/
  disk : Disk
  /-- The times that the clock will show. -/
  clock : List Text
  /-- What will come of the next requests. -/
  replies : List (Translation.Request → Translation.Reply)
  /-- What comes of a request when no reply is left. -/
  fallback : Translation.Request → Translation.Reply
  /-- The files that cannot be written. -/
  unwritable : List Refusal
  /-- What jobs have shown and asked for, in order. -/
  trace : List Event

/-- A computation on a world that may end with a fault. -/
abbrev Job := ExceptT Fault (StateM World)

namespace Job

/-- Add an event to the trace. -/
def emit (e : Event) : Job Unit :=
  modify fun w => { w with trace := w.trace ++ [e] }

/-- Write a record. -/
def record (level : Level) (message : Text) : Job Unit :=
  emit (.recorded ⟨level, message⟩)

/-- Write several records. -/
def recordAll (records : List Record) : Job Unit :=
  records.forM fun r => emit (.recorded r)

/-- Show a text on the screen. -/
def print (t : Text) : Job Unit :=
  emit (.printed t)

/-- Pause. -/
def sleep (seconds : Double) : Job Unit :=
  emit (.slept seconds)

/-- Send a request and wait for what comes of it. -/
def ask (request : Translation.Request) : Job Translation.Reply := do
  emit (.requested request)
  let w ← get
  match w.replies with
  | [] => return w.fallback request
  | reply :: rest =>
    set { w with replies := rest }
    return reply request

/-- The time. The last one that the clock has stays. -/
def time : Job Text := do
  let w ← get
  match w.clock with
  | [] => return []
  | [now] => return now
  | now :: later =>
    set { w with clock := later }
    return now

/-- End with a failure. -/
def fail {α : Type} (f : Failure) : Job α :=
  throw (.failure f)

/-- The result of a job, or the fault with which it ended. -/
def attempt {α : Type} (job : Job α) : Job (Except Fault α) :=
  tryCatch (Except.ok <$> job) fun fault => return .error fault

end Job

end Phrasebook
