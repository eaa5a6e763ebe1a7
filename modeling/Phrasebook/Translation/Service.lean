import Phrasebook.Job
import Phrasebook.Key.Lexicon
import Phrasebook.Text.Blank

/-!
# The translation service

Texts are sent in batches, with a pause after a batch that was translated and before the next one.
A request that gets no answer in time is sent again after one second, then two, then four, up to
the number of retries. A batch that fails is reported and skipped.
-/

namespace Phrasebook.Translation

/-- How the translation service is used. -/
structure Service where
  /-- The key of the account, if there is one. -/
  key : Option Text
  /-- The address of the service. -/
  endpoint : Text
  /-- The number of texts of a batch; at least one text is sent. -/
  batchSize : Int
  /-- The pause between batches in seconds. -/
  pause : Double
  /-- How often a request without an answer is sent again. -/
  retries : Int
  /-- The language of the texts. -/
  source : Text
  deriving Repr

namespace Service

/-- The name of the environment variable that may hold the key of the account. -/
def keyVariable : Text :=
  "GOOGLE_TRANSLATE_API_KEY".toList

/-- The key of the account: the configured one, or else that of the environment. -/
def chooseKey (configured environment : Option Text) : Option Text :=
  match configured with
  | some (c :: t) => some (c :: t)
  | _ => environment

/-- Whether there is a key that is not blank. -/
def isConfigured (s : Service) : Bool :=
  s.key.any fun key => !Text.isBlankText key

/-- Refuse a service without a key. -/
def requireConfigured (s : Service) : Job Unit := do
  unless s.isConfigured do
    Job.fail (.provider "Google Translate provider is not configured".toList
      (some ("Set the ".toList ++ keyVariable ++
        " environment variable or translation.api_key in the configuration file.".toList)) none)

/-- The request for some texts. -/
def request (s : Service) (texts : List Text) (target : Text) : Request :=
  ⟨s.endpoint, s.key.getD [], texts, target, s.source⟩

/-- The seconds to wait after an attempt that got no answer. -/
def wait (attempt : Nat) : Double :=
  Double.ofInt (1 <<< attempt : Nat)

/-- What is told about an attempt that got no answer. -/
def retryText (s : Service) (attempt : Nat) : Text :=
  "Request timeout (attempt ".toList ++ Text.ofNat (attempt + 1) ++ '/' ::
    Text.ofInt (s.retries + 1) ++ "), retrying in ".toList ++ Text.ofNat (1 <<< attempt) ++
    ".0s...".toList

/-- Send a request again and again until there is an answer or no attempt is left. There is no
other attempt after one whose wait is out of range. -/
def send (s : Service) (request : Request) (attempt : Nat) : Nat → Job Outcome
  | 0 => throw .noAttempts
  | left + 1 => do
    let outcome := (← Job.ask request).outcome request
    match outcome, left with
    | .timedOut _, _ + 1 =>
      unless (wait attempt).isFinite do throw .endlessPause
      Job.record .warning (s.retryText attempt)
      Job.sleep (wait attempt)
      s.send request (attempt + 1) left
    | outcome, _ => return outcome

/-- Translate some texts with one request, which may be sent again. -/
def translateTexts (s : Service) (texts : List Text) (target : Text) :
    Job (Except Text (List Text)) := do
  match ← s.send (s.request texts target) 0 (s.retries + 1).toNat with
  | .translated translations => return .ok translations
  | .timedOut what => return .error what
  | .failed what => return .error what

/-- The translation of a text; a blank text is its own translation. -/
def translate (s : Service) (text target : Text) : Job (Option Text) := do
  s.requireConfigured
  if Text.isBlankText text then return some text
  match ← s.translateTexts [text] target with
  | .ok translations => return translations.head?
  | .error what =>
    Job.record .warning ("Translation to ".toList ++ target ++ " failed: ".toList ++ what)
    return none

/-- The texts that are sent: those that are not blank, each once. -/
def worklist (texts : List Text) : List Text :=
  (texts.filter fun t => !Text.isBlankText t).eraseDups

/-- The number of texts of a batch. -/
def size (s : Service) : Nat :=
  max 1 s.batchSize.toNat

/-- A list cut into pieces of the given size, of which the last one may be shorter. `left` bounds
their number. -/
def piecesOf {α : Type} (size : Nat) : Nat → List α → List (List α)
  | 0, _ => []
  | _, [] => []
  | left + 1, x :: xs => (x :: xs).take size :: piecesOf size left ((x :: xs).drop size)

/-- The batches of some texts. -/
def batches (s : Service) (texts : List Text) : List (List Text) :=
  piecesOf s.size texts.length texts

/-- Translate batches one after another. `processed` texts of `total` are translated already. -/
def translateBatches (s : Service) (target : Text) (total : Nat)
    (report : TranslationProgress → Job Unit) :
    Nat → Dictionary Text → List (List Text) → Job (Dictionary Text)
  | _, known, [] => return known
  | processed, known, batch :: rest => do
    match ← s.translateTexts batch target with
    | .error what =>
      Job.record .error
        ("Batch translation to ".toList ++ target ++ " failed: ".toList ++ what)
      report ⟨processed, total, none, some what⟩
      s.translateBatches target total report processed known rest
    | .ok translations =>
      let processed := processed + batch.length
      report ⟨processed, total, batch.getLast?, none⟩
      Job.record .debug ("Batch complete: ".toList ++ Text.ofNat processed ++ '/' ::
        Text.ofNat total)
      if !rest.isEmpty && s.pause.gtNat 0 then
        Job.sleep s.pause
      s.translateBatches target total report processed
        (known.insertAll (batch.zip translations)) rest

/-- The translations of some texts, without those whose batch failed. -/
def translateAll (s : Service) (texts : List Text) (target : Text)
    (report : TranslationProgress → Job Unit) : Job (Dictionary Text) := do
  s.requireConfigured
  let texts := worklist texts
  if texts.isEmpty then return ∅
  let total := texts.length
  Job.record .info ("Translating ".toList ++ Text.ofNat total ++ " texts to ".toList ++ target)
  let known ← s.translateBatches target total report 0 ∅ (s.batches texts)
  Job.record .info ("Translated ".toList ++ Text.ofNat known.size ++ '/' :: Text.ofNat total ++
    " texts to ".toList ++ target)
  return known

end Service

end Phrasebook.Translation
