import Phrasebook.Data.Value

/-!
# Requests and replies

What is sent to the translation service and what comes back: an answer with a status and a body, or
no answer in time, or no connection. An answer is good when its status says so and its body has as
many translations as there were texts.
-/

namespace Phrasebook.Translation

/-- The address of the service when none is configured. -/
def defaultEndpoint : Text :=
  "https://translation.googleapis.com/language/translate/v2".toList

/-- A request for translations. -/
structure Request where
  /-- The address of the service. -/
  endpoint : Text
  /-- The key of the account. -/
  key : Text
  /-- The texts to translate. -/
  texts : List Text
  /-- The language to translate into. -/
  target : Text
  /-- The language of the texts. -/
  source : Text
  deriving DecidableEq, Repr

/-- What comes of a request. -/
inductive Reply where
  /-- An answer; the body is missing when it cannot be read. -/
  | answer (status : Nat) (body : Option Value)
  /-- No answer in time. -/
  | timeout (what : Text)
  /-- No connection. -/
  | noConnection (what : Text)

/-- The outcome of a request. -/
inductive Outcome where
  /-- A translation for each text. -/
  | translated (texts : List Text)
  /-- No answer in time, so it can be tried again. -/
  | timedOut (what : Text)
  /-- A failure that trying again does not help. -/
  | failed (what : Text)
  deriving DecidableEq, Repr

/-- The standard phrase for the status of a failed request. -/
def reasonPhrase : Nat → Text
  | 100 => "Continue".toList
  | 101 => "Switching Protocols".toList
  | 102 => "Processing".toList
  | 103 => "Early Hints".toList
  | 300 => "Multiple Choices".toList
  | 301 => "Moved Permanently".toList
  | 302 => "Found".toList
  | 303 => "See Other".toList
  | 304 => "Not Modified".toList
  | 305 => "Use Proxy".toList
  | 307 => "Temporary Redirect".toList
  | 308 => "Permanent Redirect".toList
  | 400 => "Bad Request".toList
  | 401 => "Unauthorized".toList
  | 402 => "Payment Required".toList
  | 403 => "Forbidden".toList
  | 404 => "Not Found".toList
  | 405 => "Method Not Allowed".toList
  | 406 => "Not Acceptable".toList
  | 407 => "Proxy Authentication Required".toList
  | 408 => "Request Timeout".toList
  | 409 => "Conflict".toList
  | 410 => "Gone".toList
  | 411 => "Length Required".toList
  | 412 => "Precondition Failed".toList
  | 413 => "Request Entity Too Large".toList
  | 414 => "Request-URI Too Long".toList
  | 415 => "Unsupported Media Type".toList
  | 416 => "Requested Range Not Satisfiable".toList
  | 417 => "Expectation Failed".toList
  | 418 => "I'm a teapot".toList
  | 421 => "Misdirected Request".toList
  | 422 => "Unprocessable Entity".toList
  | 423 => "Locked".toList
  | 424 => "Failed Dependency".toList
  | 425 => "Too Early".toList
  | 426 => "Upgrade Required".toList
  | 428 => "Precondition Required".toList
  | 429 => "Too Many Requests".toList
  | 431 => "Request Header Fields Too Large".toList
  | 451 => "Unavailable For Legal Reasons".toList
  | 500 => "Internal Server Error".toList
  | 501 => "Not Implemented".toList
  | 502 => "Bad Gateway".toList
  | 503 => "Service Unavailable".toList
  | 504 => "Gateway Timeout".toList
  | 505 => "HTTP Version Not Supported".toList
  | 506 => "Variant Also Negotiates".toList
  | 507 => "Insufficient Storage".toList
  | 508 => "Loop Detected".toList
  | 510 => "Not Extended".toList
  | 511 => "Network Authentication Required".toList
  | _ => []

/-- The kind of a status that is no success. -/
def statusKind (status : Nat) : Text :=
  match status / 100 with
  | 1 => "Informational response".toList
  | 3 => "Redirect response".toList
  | 4 => "Client error".toList
  | 5 => "Server error".toList
  | _ => "Invalid status code".toList

/-- The page that explains a status. -/
def statusPage (status : Nat) : Text :=
  "https://".toList ++ "developer.mozilla.org/en-US/docs/Web/HTTP/Status/".toList ++
    Text.ofNat status

/-- The message about a status that is no success. -/
def statusMessage (request : Request) (status : Nat) : Text :=
  statusKind status ++ " '".toList ++ Text.ofNat status ++ ' ' :: reasonPhrase status ++
    "' for url '".toList ++ request.endpoint ++ "?key=".toList ++ request.key ++
    "'\nFor more information check: ".toList ++ statusPage status

/-- What can be wrong with the body of an answer. -/
inductive BodyFault where
  | unreadable
  | noMap
  | noData
  | noTranslations
  | badEntry
  | noText
  | wrongCount (expected got : Nat)
  deriving DecidableEq, Repr

/-- The message about a body. -/
def BodyFault.message : BodyFault → Text
  | .unreadable => "Expecting value: line 1 column 1 (char 0)".toList
  | .noMap => "Invalid API response format: expected dict".toList
  | .noData => "Invalid API response format: missing data object".toList
  | .noTranslations => "Invalid API response format: missing translations".toList
  | .badEntry => "Invalid API response format: bad translation entry".toList
  | .noText => "Invalid API response format: missing translatedText".toList
  | .wrongCount expected got => "Invalid API response format: expected ".toList ++
      Text.ofNat expected ++ " translations, got ".toList ++ Text.ofNat got

/-- The translation that an entry of the body holds. -/
def entryText (entry : Value) : Except BodyFault Text :=
  match entry with
  | .map _ =>
    match entry.get? "translatedText".toList with
    | some (.text t) => .ok t
    | _ => .error .noText
  | _ => .error .badEntry

/-- The translations that a body holds, as many as expected. -/
def bodyTexts (body : Option Value) (expected : Nat) : Except BodyFault (List Text) :=
  match body with
  | none => .error .unreadable
  | some (.map entries) =>
    match (Value.map entries).get? "data".toList with
    | some (.map data) =>
      match (Value.map data).get? "translations".toList with
      | some (.list items) => do
        let texts ← items.mapM entryText
        if texts.length = expected then return texts
        else throw (.wrongCount expected texts.length)
      | _ => .error .noTranslations
    | _ => .error .noData
  | some _ => .error .noMap

/-- The outcome that a reply means for a request. -/
def Reply.outcome (request : Request) : Reply → Outcome
  | .answer status body =>
    if 200 ≤ status && status < 300 then
      match bodyTexts body request.texts.length with
      | .ok texts => .translated texts
      | .error fault => .failed fault.message
    else .failed (statusMessage request status)
  | .timeout what => .timedOut what
  | .noConnection what => .failed what

end Phrasebook.Translation
