import Phrasebook.Document.Block
import Phrasebook.Document.Plain
import Phrasebook.Document.Quoted

/-!
# From text to tokens

The text of a document is cut into tokens from left to right. Whether a scalar is a key shows only
at the colon behind it, so a place where a key may have started is kept until then, and the token
that announces the key is put in there.
-/

namespace Phrasebook.Document

/-- A place where a key may have started. -/
structure PossibleKey where
  /-- The number of tokens before the key. -/
  place : Nat
  /-- Whether it has to be a key, as it stands at the indentation of its block. -/
  isRequired : Bool
  /-- The number of characters before the key. -/
  index : Nat
  /-- The line of the key. -/
  line : Nat
  /-- The column of the key. -/
  column : Nat

/-- What is known while a document is cut into tokens. -/
structure Lexer where
  /-- The place reached. -/
  cursor : Cursor
  /-- The tokens so far. -/
  tokens : List Token
  /-- The columns of the blocks around the place, the innermost first. -/
  blocks : List Nat
  /-- Whether a key may start at the place. -/
  mayStartKey : Bool
  /-- The place of a possible key outside brackets and in each pair of brackets around the place,
  the innermost first. -/
  keys : List (Option PossibleKey)

namespace Lexer

/-- The start of a document. -/
def start (t : Text) : Lexer :=
  ⟨.start t, [], [], true, [none]⟩

/-- Whether the place is inside brackets. -/
def inFlow (x : Lexer) : Bool :=
  x.keys.length > 1

/-- The first column inside the innermost block. -/
def indent (x : Lexer) : Nat :=
  match x.blocks with
  | [] => 0
  | column :: _ => column + 1

/-- Add a token. -/
def push (x : Lexer) (t : Token) : Lexer :=
  { x with tokens := x.tokens ++ [t] }

/-- Add a token that ends at a place. -/
def pushTo (x : Lexer) (t : Token) (c : Cursor) : Lexer :=
  { x.push t with cursor := c }

/-- Allow or forbid that a key starts at the place. -/
def allowKey (x : Lexer) (may : Bool) : Lexer :=
  { x with mayStartKey := may }

/-- The possible key of the innermost brackets. -/
def key? (x : Lexer) : Option PossibleKey :=
  x.keys.head?.join

/-- Set the possible key of the innermost brackets. -/
def setKey (x : Lexer) (k : Option PossibleKey) : Lexer :=
  { x with keys := k :: x.keys.tail }

/-- Forget the possible key of the innermost brackets. A key that has to be one may not be
forgotten. -/
def dropKey (x : Lexer) : Except Fault Lexer :=
  if x.key?.any (·.isRequired) then .error .malformed else .ok (x.setKey none)

/-- Note that a key may start at the place. -/
def noteKey (x : Lexer) : Except Fault Lexer :=
  if x.mayStartKey then do
    let c := x.cursor
    let isRequired := !x.inFlow && x.blocks.head? == some c.column
    return (← x.dropKey).setKey (some ⟨x.tokens.length, isRequired, c.index, c.line, c.column⟩)
  else .ok x

/-- Whether a possible key is too far behind: a key ends in its line and has at most 1024
characters. -/
def isStale (c : Cursor) (k : PossibleKey) : Bool :=
  k.line != c.line || c.index - k.index > 1024

/-- Forget the possible keys that are too far behind. -/
def dropStale (x : Lexer) : Except Fault Lexer :=
  let stale (k : Option PossibleKey) := k.any (isStale x.cursor)
  if x.keys.any fun k => stale k && k.any (·.isRequired) then .error .malformed
  else .ok { x with keys := x.keys.map fun k => if stale k then none else k }

/-- End the blocks with a property, from the innermost one on, up to one without it. -/
def endBlocks (x : Lexer) (p : Nat → Bool) : Lexer :=
  if x.inFlow then x
  else
    let ended := x.blocks.takeWhile p
    { x with
      blocks := x.blocks.drop ended.length
      tokens := x.tokens ++ ended.map fun _ => .blockEnd }

/-- Start a block at a column with a token at a place among the tokens, unless the innermost block
is at that column or further right. -/
def startBlock (x : Lexer) (t : Token) (column place : Nat) : Lexer :=
  if x.indent ≤ column then
    { x with blocks := column :: x.blocks, tokens := x.tokens.insertIdx place t }
  else x

/-- The next character that is neither blank nor in a comment. A line end outside brackets allows a
key. -/
def skipGaps : Nat → Lexer → Lexer
  | 0, x => x
  | fuel + 1, x =>
    let c := x.cursor.skipSpaces.skipComment
    match c.peek? with
    | some ch =>
      if isBreak ch then
        skipGaps fuel { x with cursor := c.next, mayStartKey := x.mayStartKey || !x.inFlow }
      else { x with cursor := c }
    | none => { x with cursor := c }

/-- The letters, digits, hyphens and low lines of names. -/
def isNameChar (c : Char) : Bool :=
  c.isAlphanum || c == '-' || c == '_'

/-- The number of a version that comes next, and the place behind it. -/
def number (c : Cursor) : Except Fault (Nat × Cursor) :=
  let digits := c.span Char.isDigit
  if digits.isEmpty then .error .malformed
  else do
    let n ← (Text.number digits).mapError .digits
    return (n, c.skip digits.length)

/-- The version that comes next, and the place behind it. -/
def version (c : Cursor) : Except Fault (Token × Cursor) := do
  let (major, c) ← number c.skipSpaces
  if c.peek? != some '.' then throw .malformed
  let (_, c) ← number c.next
  if !atSpace c.peek? then throw .malformed
  return (.version major, c)

/-- The handle of a tag that comes next: an exclamation mark, or a name between two. -/
def tagHandle (c : Cursor) : Except Fault (Text × Cursor) :=
  if c.peek? != some '!' then .error .malformed
  else if c.ahead? 1 == some ' ' then .ok (['!'], c.next)
  else
    let name := c.next.span isNameChar
    let behind := c.skip (name.length + 1)
    if behind.peek? == some '!' then .ok ('!' :: name ++ ['!'], behind.next)
    else .error .malformed

/-- The characters of tags. -/
def isTagChar (c : Char) : Bool :=
  c.isAlphanum || "-;/?:@&=+$,_.!~*'()[]%".toList.contains c

/-- The characters of a tag that come next. -/
def tagText (c : Cursor) : Except Fault (Text × Cursor) :=
  let t := c.span isTagChar
  if t.isEmpty then .error .malformed else .ok (t, c.skip t.length)

/-- The short form of tags that comes next. -/
def shorthand (c : Cursor) : Except Fault (Token × Cursor) := do
  let (handle, c) ← tagHandle c.skipSpaces
  if c.peek? != some ' ' then throw .malformed
  let (tagStart, c) ← tagText c.skipSpaces
  if !atSpace c.peek? then throw .malformed
  return (.shorthand handle tagStart, c)

/-- The directive that comes next, up to the end of its line. -/
def directive (c : Cursor) : Except Fault (Token × Cursor) := do
  let name := c.next.span isNameChar
  let c := c.skip (name.length + 1)
  if name.isEmpty || !atSpace c.peek? then throw .malformed
  let (token, c) ← if name == "YAML".toList then version c
    else if name == "TAG".toList then shorthand c
    else pure (.directive, c.lineEnd)
  return (token, ← emptyLineEnd c)

/-- The name of a node that comes next. -/
def nodeName (c : Cursor) : Except Fault (Text × Cursor) :=
  let name := c.span isNameChar
  let behind := c.skip name.length
  if name.isEmpty then .error .malformed
  else if atGap behind.peek? || behind.peek?.any ("?:,]\x7d%@`".toList.contains ·) then
    .ok (name, behind)
  else .error .malformed

/-- The tag that comes next. -/
def tag (c : Cursor) : Except Fault (Token × Cursor) := do
  let (token, c) ← if c.ahead? 1 == some '<' then do
      let (t, c) ← tagText (c.skip 2)
      if c.peek? != some '>' then throw .malformed
      pure (Token.tag none t, c.next)
    else if atGap (c.ahead? 1) then pure (Token.tag none ['!'], c.next)
    else if (c.next.span fun ch => !atSpace (some ch)).contains '!' then do
      let (handle, c) ← tagHandle c
      let (t, c) ← tagText c
      pure (Token.tag (some handle) t, c)
    else do
      let (t, c) ← tagText c.next
      pure (Token.tag (some ['!']) t, c)
  if atSpace c.peek? then return (token, c) else throw .malformed

/-- The mark between documents that comes next. -/
def division (x : Lexer) (t : Token) : Except Fault Lexer := do
  let x ← (x.endBlocks fun _ => true).dropKey
  return (x.allowKey false).pushTo t (x.cursor.skip 3)

/-- The bracket before a list or map. -/
def openFlow (x : Lexer) (t : Token) : Except Fault Lexer := do
  let x ← x.noteKey
  return ({ x with keys := none :: x.keys }.allowKey true).pushTo t x.cursor.next

/-- The bracket behind a list or map. -/
def closeFlow (x : Lexer) (t : Token) : Except Fault Lexer := do
  let x ← x.dropKey
  if x.inFlow then
    return ({ x with keys := x.keys.tail }.allowKey false).pushTo t x.cursor.next
  else throw .malformed

/-- The comma between items. -/
def comma (x : Lexer) : Except Fault Lexer := do
  let x ← (x.allowKey true).dropKey
  return x.pushTo .comma x.cursor.next

/-- The start of a block list or block map at the place, if the place is outside brackets. -/
def openBlock (x : Lexer) (t : Token) : Except Fault Lexer :=
  if x.inFlow then .ok x
  else if x.mayStartKey then .ok (x.startBlock t x.cursor.column x.tokens.length)
  else .error .malformed

/-- The hyphen before an item of a block list. -/
def item (x : Lexer) : Except Fault Lexer := do
  let x ← ((← x.openBlock .blockList).allowKey true).dropKey
  return x.pushTo .item x.cursor.next

/-- The question mark before a key. -/
def explicitKey (x : Lexer) : Except Fault Lexer := do
  let x ← x.openBlock .blockMap
  let x ← (x.allowKey !x.inFlow).dropKey
  return x.pushTo .key x.cursor.next

/-- The colon before a value. -/
def value (x : Lexer) : Except Fault Lexer := do
  match x.key? with
  | some k =>
    let x := { x.setKey none with tokens := x.tokens.insertIdx k.place .key }
    let x := if x.inFlow then x else x.startBlock .blockMap k.column k.place
    return (x.allowKey false).pushTo .value x.cursor.next
  | none =>
    let x ← x.openBlock .blockMap
    let x ← (x.allowKey !x.inFlow).dropKey
    return x.pushTo .value x.cursor.next

/-- A token that may start a key. -/
def keyPiece (x : Lexer) (read : Cursor → Except Fault (Token × Cursor)) : Except Fault Lexer := do
  let x ← x.noteKey
  let (t, c) ← read x.cursor
  return (x.allowKey false).pushTo t c

/-- A block scalar. -/
def block (x : Lexer) (isFolded : Bool) : Except Fault Lexer := do
  let x ← (x.allowKey true).dropKey
  let (t, c) ← blockScalar isFolded x.indent x.cursor
  return x.pushTo (.scalar .quoted t) c

/-- A plain scalar. -/
def plain (x : Lexer) : Except Fault Lexer := do
  let x ← x.noteKey
  let s := plainScalar x.inFlow x.indent x.cursor
  return (x.allowKey s.isBroken).pushTo (.scalar .plain s.text) s.cursor

/-- Whether a character may start a plain scalar, whatever comes behind it. -/
def startsPlain (c : Char) : Bool :=
  !atGap (some c) && !"-?:,[]\x7b\x7d#&*!|>'\"%@`".toList.contains c

/-- The token that starts with a character. -/
def token (x : Lexer) (ch : Char) : Except Fault Lexer :=
  let c := x.cursor
  let endsHere := atGap (c.ahead? 1)
  if ch == '%' && c.column == 0 then do
    let x ← (x.endBlocks fun _ => true).dropKey
    let (t, c) ← directive c
    return (x.allowKey false).pushTo t c
  else if c.column == 0 && c.atMarker '-' then x.division .documentStart
  else if c.column == 0 && c.atMarker '.' then x.division .documentEnd
  else if ch == '[' then x.openFlow .listOpen
  else if ch == '{' then x.openFlow .mapOpen
  else if ch == ']' then x.closeFlow .listClose
  else if ch == '}' then x.closeFlow .mapClose
  else if ch == ',' then x.comma
  else if ch == '-' && endsHere then x.item
  else if ch == '?' && (x.inFlow || endsHere) then x.explicitKey
  else if ch == ':' && (x.inFlow || endsHere) then x.value
  else if ch == '*' then
    x.keyPiece fun c => return (.alias (← nodeName c.next).1, (← nodeName c.next).2)
  else if ch == '&' then
    x.keyPiece fun c => return (.anchor (← nodeName c.next).1, (← nodeName c.next).2)
  else if ch == '!' then x.keyPiece tag
  else if ch == '|' && !x.inFlow then x.block false
  else if ch == '>' && !x.inFlow then x.block true
  else if ch == '\'' || ch == '"' then
    x.keyPiece fun c => do
      let (t, last) ← quotedScalar (ch == '"') c
      return (.scalar .quoted t, last)
  else if startsPlain ch || !endsHere && (ch == '-' || !x.inFlow && (ch == '?' || ch == ':')) then
    x.plain
  else .error .malformed

/-- The tokens from a place on. -/
def run : Nat → Lexer → Except Fault (List Token)
  | 0, _ => .error .malformed
  | fuel + 1, x => do
    let x ← (x.skipGaps (x.cursor.rest.length + 1)).dropStale
    let x := x.endBlocks (· > x.cursor.column)
    match x.cursor.peek? with
    | none => return (← (x.endBlocks fun _ => true).dropKey).tokens
    | some ch => run fuel (← x.token ch)

end Lexer

/-- Whether a character may stand in a document. -/
def isDocumentChar (c : Char) : Bool :=
  let n := c.toNat
  n == 0x9 || n == 0xA || n == 0xD || (0x20 ≤ n && n ≤ 0x7E) || n == 0x85 ||
    (0xA0 ≤ n && n ≤ 0xFFFD) || 0x10000 ≤ n

/-- A text with a line feed for each carriage return, alone or before a line feed. -/
def unifyBreaks : Text → Text
  | [] => []
  | [c] => if c = '\r' then ['\n'] else [c]
  | c :: d :: t =>
    if c = '\r' then if d = '\n' then unifyBreaks (d :: t) else '\n' :: unifyBreaks (d :: t)
    else c :: unifyBreaks (d :: t)

/-- The tokens of a document. A mark of the byte order at its start is no part of it. -/
def tokens (t : Text) : Except Fault (List Token) :=
  let t := unifyBreaks t
  if t.all isDocumentChar then
    let t := if t.head? == some '\uFEFF' then t.tail else t
    Lexer.run (t.length + 1) (.start t)
  else .error .malformed

end Phrasebook.Document
