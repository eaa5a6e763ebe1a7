import Phrasebook.Text.Quoted

/-!
# UTF-8

Contents are written and read as UTF-8. Bytes that are no UTF-8 are refused with the place and the
kind of their first bad sequence: the bytes that begin it as they should are named, and what is
wrong with the next one.
-/

namespace Phrasebook.Text

/-- What is wrong with a sequence of bytes. -/
inductive Utf8Reason where
  /-- No sequence starts with this byte. -/
  | invalidStart
  /-- The next byte does not continue the sequence. -/
  | invalidContinuation
  /-- The content ends within the sequence. -/
  | unexpectedEnd
  deriving DecidableEq, Repr

/-- The words for what is wrong. -/
def Utf8Reason.text : Utf8Reason → Text
  | .invalidStart => "invalid start byte".toList
  | .invalidContinuation => "invalid continuation byte".toList
  | .unexpectedEnd => "unexpected end of data".toList

/-- The first bad sequence of a content. -/
structure Utf8Fault where
  /-- The position of its first byte. -/
  position : Nat
  /-- Its first byte. -/
  first : Nat
  /-- The number of bytes that are named. -/
  length : Nat
  /-- What is wrong. -/
  reason : Utf8Reason
  deriving DecidableEq, Repr

/-- The message about a bad sequence. -/
def Utf8Fault.message (f : Utf8Fault) : Text :=
  let what :=
    if f.length = 1 then
      "byte 0x".toList ++ hex 2 f.first ++ " in position ".toList ++ ofNat f.position
    else
      "bytes in position ".toList ++ ofNat f.position ++ '-' :: ofNat (f.position + f.length - 1)
  "'utf-8' codec can't decode ".toList ++ what ++ ": ".toList ++ f.reason.text

/-- The least and the greatest second byte of a sequence with a given first byte, and the number of
bytes after it; none for a byte that starts no longer sequence. -/
def sequence? (first : Nat) : Option (Nat × Nat × Nat) :=
  if first < 0xC2 then none
  else if first < 0xE0 then some (0x80, 0xBF, 1)
  else if first < 0xF0 then
    some (if first = 0xE0 then 0xA0 else 0x80, if first = 0xED then 0x9F else 0xBF, 2)
  else if first < 0xF5 then
    some (if first = 0xF0 then 0x90 else 0x80, if first = 0xF4 then 0x8F else 0xBF, 3)
  else none

/-- What is wrong with the bytes that should continue a sequence, after `taken` good ones. -/
def continuationFault? (low high : Nat) : Nat → Nat → List Nat → Option (Nat × Utf8Reason)
  | 0, _, _ => none
  | _ + 1, taken, [] => some (taken, .unexpectedEnd)
  | missing + 1, taken, b :: bytes =>
    if low ≤ b && b ≤ high then continuationFault? 0x80 0xBF missing (taken + 1) bytes
    else some (taken, .invalidContinuation)

/-- The first bad sequence of what is left of a content, after `skip` bytes of a good one. -/
def utf8FaultFrom : Nat → Nat → List Nat → Option Utf8Fault
  | _, _, [] => none
  | skip + 1, position, _ :: bytes => utf8FaultFrom skip (position + 1) bytes
  | 0, position, b :: bytes =>
    if b < 0x80 then utf8FaultFrom 0 (position + 1) bytes
    else
      match sequence? b with
      | none => some ⟨position, b, 1, .invalidStart⟩
      | some (low, high, missing) =>
        match continuationFault? low high missing 1 bytes with
        | some (length, reason) => some ⟨position, b, length, reason⟩
        | none => utf8FaultFrom missing (position + 1) bytes

/-- The first bad sequence of a content that is no UTF-8. -/
def utf8Fault (content : ByteArray) : Utf8Fault :=
  (utf8FaultFrom 0 0 (content.toList.map UInt8.toNat)).getD ⟨0, 0, 1, .unexpectedEnd⟩

/-- The text that a content encodes. -/
def decode (content : ByteArray) : Except Utf8Fault Text :=
  match String.fromUTF8? content with
  | some s => .ok s.toList
  | none => .error (utf8Fault content)

/-- The content that encodes a text. -/
def encode (t : Text) : ByteArray :=
  (String.ofList t).toUTF8

end Phrasebook.Text
