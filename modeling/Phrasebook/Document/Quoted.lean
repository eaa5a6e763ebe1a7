import Phrasebook.Document.Cursor
import Phrasebook.Document.Token

/-!
# Quoted scalars

Between single quotes only a quote is special, and written twice. Between double quotes a backslash
starts an escape sequence. A line end in either is folded into a space, and empty lines after that
stay.
-/

namespace Phrasebook.Document

/-- What a character behind a backslash stands for. -/
def escaped? (c : Char) : Option Char :=
  match c with
  | '0' => some '\x00'
  | 'a' => some '\x07'
  | 'b' => some '\x08'
  | 't' => some '\t'
  | '\t' => some '\t'
  | 'n' => some '\n'
  | 'v' => some '\x0B'
  | 'f' => some '\x0C'
  | 'r' => some '\r'
  | 'e' => some '\x1B'
  | ' ' => some ' '
  | '"' => some '"'
  | '\\' => some '\\'
  | '/' => some '/'
  | 'N' => some '\u0085'
  | '_' => some '\u00A0'
  | 'L' => some '\u2028'
  | 'P' => some '\u2029'
  | _ => none

/-- The number of hexadecimal digits that name a character behind a backslash and a letter. -/
def escapeWidth? (c : Char) : Option Nat :=
  match c with
  | 'x' => some 2
  | 'u' => some 4
  | 'U' => some 8
  | _ => none

/-- The value of a hexadecimal digit. -/
def hexValue? (c : Char) : Option Nat :=
  if '0' ≤ c && c ≤ '9' then some (c.toNat - 48)
  else if 'a' ≤ c && c ≤ 'f' then some (c.toNat - 87)
  else if 'A' ≤ c && c ≤ 'F' then some (c.toNat - 55)
  else none

/-- The number that a run of hexadecimal digits writes. -/
def hexNumber? (digits : Text) : Option Nat :=
  digits.foldlM (fun n c => (hexValue? c).map (16 * n + ·)) 0

/-- The character that some hexadecimal digits name. Half of a surrogate pair is no character of its
own, and the replacement character stands for it. -/
def namedCharacter (width : Nat) (digits : Text) : Except Fault Char :=
  if digits.length < width then .error .malformed
  else
    match hexNumber? digits with
    | none => .error .malformed
    | some n =>
      if n.isValidChar then .ok (Char.ofNat n)
      else if n < 0x110000 then .ok '\uFFFD'
      else .error .character

/-- The line ends that come next with the indents behind them, and the place behind. A division of
documents may not come in a quoted scalar. -/
def quotedBreaks : Nat → Cursor → Except Fault (Text × Cursor)
  | 0, c => .ok ([], c)
  | fuel + 1, c =>
    if c.atDivision then .error .malformed
    else
      let c := c.skipWhile fun ch => ch == ' ' || ch == '\t'
      match c.peek? with
      | some ch =>
        if isBreak ch then do
          let (more, last) ← quotedBreaks fuel c.next
          return (breakText ch ++ more, last)
        else .ok ([], c)
      | none => .ok ([], c)

/-- The piece of a quoted scalar that comes next, and the place behind it: a gap, an escape
sequence, a quote that is written twice, or a character. -/
def quotedPiece (isDouble : Bool) (c : Cursor) (ch : Char) : Except Fault (Text × Cursor) :=
  if ch == ' ' || ch == '\t' || isBreak ch then
    let gap := c.span fun ch => ch == ' ' || ch == '\t'
    let c := c.skip gap.length
    match c.peek? with
    | none => .error .malformed
    | some ch =>
      if isBreak ch then do
        let (breaks, last) ← quotedBreaks c.rest.length c.next
        let first := if breakText ch != ['\n'] then breakText ch
          else if breaks.isEmpty then [' '] else []
        return (first ++ breaks, last)
      else .ok (gap, c)
  else if !isDouble && ch == '\'' then .ok (['\''], c.skip 2)
  else if isDouble && ch == '\\' then
    let c := c.next
    match c.peek? with
    | none => .error .malformed
    | some ch =>
      if isBreak ch then quotedBreaks c.rest.length c.next
      else
        match escaped? ch, escapeWidth? ch with
        | some meant, _ => .ok ([meant], c.next)
        | none, some width => do
          let meant ← namedCharacter width (c.next.rest.take width)
          return ([meant], c.skip (width + 1))
        | none, none => .error .malformed
  else .ok ([ch], c.next)

/-- Whether a quoted scalar ends at a place with its quote. -/
def endsQuoted (isDouble : Bool) (c : Cursor) (ch : Char) : Bool :=
  if isDouble then ch == '"' else ch == '\'' && c.ahead? 1 != some '\''

/-- The rest of a quoted scalar, and the place behind its quote. -/
def quotedRest (isDouble : Bool) : Nat → Cursor → Except Fault (Text × Cursor)
  | 0, _ => .error .malformed
  | fuel + 1, c =>
    match c.peek? with
    | none => .error .malformed
    | some ch =>
      if endsQuoted isDouble c ch then .ok ([], c.next)
      else do
        let (piece, next) ← quotedPiece isDouble c ch
        let (more, last) ← quotedRest isDouble fuel next
        return (piece ++ more, last)

/-- The quoted scalar that starts at a place with its quote, and the place behind it. -/
def quotedScalar (isDouble : Bool) (c : Cursor) : Except Fault (Text × Cursor) :=
  quotedRest isDouble (c.rest.length + 1) c.next

end Phrasebook.Document
