import Phrasebook.Document.Token

/-!
# Nodes of a document

The tokens of a document make up a tree of scalars, lists and maps. A node can have a name, under
which the document refers to it again, and a tag, which says what its text means.
-/

namespace Phrasebook.Document

/-- What stands before a node. -/
structure Properties where
  /-- The name under which the document refers to the node. -/
  anchor : Option Text
  /-- The tag that says what the node means. -/
  tag : Option Text
  deriving DecidableEq, Repr

/-- A node. -/
inductive Node where
  /-- A reference to a named node. -/
  | alias (name : Text)
  /-- A scalar. -/
  | scalar (properties : Properties) (style : Style) (text : Text)
  /-- A list. -/
  | list (properties : Properties) (items : List Node)
  /-- A map. -/
  | map (properties : Properties) (entries : List (Node × Node))
  deriving Inhabited

namespace Node

/-- The node that stands where nothing is written. -/
def nothing : Node :=
  .scalar ⟨none, none⟩ .plain []

/-- The short forms of tags that every document has. -/
def shorthands : List (Text × Text) :=
  [("!".toList, "!".toList), ("!!".toList, "tag:yaml.org,2002:".toList)]

/-- The tag that a short form stands for. -/
def longTag (handles : List (Text × Text)) (handle : Option Text) (suffix : Text) :
    Except Fault Text :=
  match handle with
  | none => .ok suffix
  | some handle =>
    match handles.lookup handle with
    | some tagStart => .ok (tagStart ++ suffix)
    | none => .error .malformed

/-- The properties that come next, and the tokens behind them. -/
def properties (handles : List (Text × Text)) :
    List Token → Except Fault (Properties × List Token)
  | .anchor name :: .tag handle suffix :: rest => do
    return (⟨some name, ← longTag handles handle suffix⟩, rest)
  | .tag handle suffix :: .anchor name :: rest => do
    return (⟨some name, ← longTag handles handle suffix⟩, rest)
  | .anchor name :: rest => .ok (⟨some name, none⟩, rest)
  | .tag handle suffix :: rest => do
    return (⟨none, ← longTag handles handle suffix⟩, rest)
  | rest => .ok (⟨none, none⟩, rest)

/-- Where a node stands. -/
inductive Position where
  /-- In brackets. -/
  | flow
  /-- In a block. -/
  | block
  /-- In a block, as a key or a value, where a list needs no indentation. -/
  | entry
  deriving DecidableEq, Repr

/-- Whether nothing is written before a token, where an item of a block list is expected. -/
def noItem : Option Token → Bool
  | some .item => true
  | some .blockEnd => true
  | _ => false

/-- Whether nothing is written before a token, where an item of a list without indentation is
expected. -/
def noEntryItem : Option Token → Bool
  | some .item => true
  | some .key => true
  | some .value => true
  | some .blockEnd => true
  | _ => false

/-- Whether nothing is written before a token, where a key or value of a block map is expected. -/
def noEntry : Option Token → Bool
  | some .key => true
  | some .value => true
  | some .blockEnd => true
  | _ => false

/-- Whether nothing is written before a token, where a key or value in brackets is expected. -/
def noFlowEntry (close : Token) : Option Token → Bool
  | some t => t == .value || t == .comma || t == close
  | none => false

/-- What was read, and the tokens behind it. -/
abbrev Behind (α : Type) := α × List Token

mutual

/-- The node that comes next. -/
def read (handles : List (Text × Text)) : Nat → Position → List Token → Except Fault (Behind Node)
  | 0, _, _ => .error .malformed
  | _ + 1, _, .alias name :: rest => .ok (.alias name, rest)
  | fuel + 1, position, tokens => do
    let (properties, tokens) ← Node.properties handles tokens
    match position, tokens with
    | .entry, .item :: _ =>
      let (items, rest) ← readEntryItems handles fuel tokens
      return (.list properties items, rest)
    | _, .scalar style text :: rest => return (.scalar properties style text, rest)
    | _, .listOpen :: rest =>
      let (items, rest) ← readFlowItems handles fuel true rest
      return (.list properties items, rest)
    | _, .mapOpen :: rest =>
      let (entries, rest) ← readFlowEntries handles fuel true rest
      return (.map properties entries, rest)
    | .flow, tokens => readEmpty properties tokens
    | _, .blockList :: rest =>
      let (items, rest) ← readItems handles fuel rest
      return (.list properties items, rest)
    | _, .blockMap :: rest =>
      let (entries, rest) ← readEntries handles fuel rest
      return (.map properties entries, rest)
    | _, tokens => readEmpty properties tokens

/-- A node of which only properties are written. -/
def readEmpty (properties : Properties) (tokens : List Token) : Except Fault (Behind Node) :=
  if properties.anchor.isSome || properties.tag.isSome then
    .ok (.scalar properties .plain [], tokens)
  else .error .malformed

/-- The node that comes next, or nothing. -/
def readUnless (handles : List (Text × Text)) :
    Nat → Bool → Position → List Token → Except Fault (Behind Node)
  | 0, _, _, _ => .error .malformed
  | fuel + 1, isNothing, position, tokens =>
    if isNothing then .ok (.nothing, tokens) else read handles fuel position tokens

/-- The items of a block list. -/
def readItems (handles : List (Text × Text)) : Nat → List Token → Except Fault (Behind (List Node))
  | 0, _ => .error .malformed
  | _ + 1, .blockEnd :: rest => .ok ([], rest)
  | fuel + 1, .item :: rest => do
    let (node, rest) ← readUnless handles fuel (noItem rest.head?) .block rest
    let (nodes, rest) ← readItems handles fuel rest
    return (node :: nodes, rest)
  | _ + 1, _ => .error .malformed

/-- The items of a list without indentation. -/
def readEntryItems (handles : List (Text × Text)) :
    Nat → List Token → Except Fault (Behind (List Node))
  | 0, _ => .error .malformed
  | fuel + 1, .item :: rest => do
    let (node, rest) ← readUnless handles fuel (noEntryItem rest.head?) .block rest
    let (nodes, rest) ← readEntryItems handles fuel rest
    return (node :: nodes, rest)
  | _ + 1, rest => .ok ([], rest)

/-- The entries of a block map. -/
def readEntries (handles : List (Text × Text)) :
    Nat → List Token → Except Fault (Behind (List (Node × Node)))
  | 0, _ => .error .malformed
  | _ + 1, .blockEnd :: rest => .ok ([], rest)
  | fuel + 1, .key :: rest => do
    let (key, rest) ← readUnless handles fuel (noEntry rest.head?) .entry rest
    let (value, rest) ← readValue handles fuel rest
    let (entries, rest) ← readEntries handles fuel rest
    return ((key, value) :: entries, rest)
  | _ + 1, _ => .error .malformed

/-- The value behind a key of a block map. -/
def readValue (handles : List (Text × Text)) : Nat → List Token → Except Fault (Behind Node)
  | 0, _ => .error .malformed
  | fuel + 1, .value :: rest => readUnless handles fuel (noEntry rest.head?) .entry rest
  | _ + 1, rest => .ok (.nothing, rest)

/-- The items of a list in brackets. A key among them makes a map of one entry. -/
def readFlowItems (handles : List (Text × Text)) :
    Nat → Bool → List Token → Except Fault (Behind (List Node))
  | 0, _, _ => .error .malformed
  | _ + 1, _, .listClose :: rest => .ok ([], rest)
  | fuel + 1, false, .comma :: rest => readFlowItems handles fuel true rest
  | _ + 1, false, _ => .error .malformed
  | fuel + 1, true, .key :: rest => do
    let (key, rest) ←
      readUnless handles fuel (noFlowEntry .listClose rest.head?) .flow rest
    let (value, rest) ← readFlowValue handles fuel .listClose rest
    let (nodes, rest) ← readFlowItems handles fuel false rest
    return (.map ⟨none, none⟩ [(key, value)] :: nodes, rest)
  | fuel + 1, true, rest => do
    let (node, rest) ← read handles fuel .flow rest
    let (nodes, rest) ← readFlowItems handles fuel false rest
    return (node :: nodes, rest)

/-- The entries of a map in brackets. A key without a colon has nothing as its value. -/
def readFlowEntries (handles : List (Text × Text)) :
    Nat → Bool → List Token → Except Fault (Behind (List (Node × Node)))
  | 0, _, _ => .error .malformed
  | _ + 1, _, .mapClose :: rest => .ok ([], rest)
  | fuel + 1, false, .comma :: rest => readFlowEntries handles fuel true rest
  | _ + 1, false, _ => .error .malformed
  | fuel + 1, true, .key :: rest => do
    let (key, rest) ← readUnless handles fuel (noFlowEntry .mapClose rest.head?) .flow rest
    let (value, rest) ← readFlowValue handles fuel .mapClose rest
    let (entries, rest) ← readFlowEntries handles fuel false rest
    return ((key, value) :: entries, rest)
  | fuel + 1, true, rest => do
    let (key, rest) ← read handles fuel .flow rest
    let (entries, rest) ← readFlowEntries handles fuel false rest
    return ((key, .nothing) :: entries, rest)

/-- The value behind a key in brackets. -/
def readFlowValue (handles : List (Text × Text)) :
    Nat → Token → List Token → Except Fault (Behind Node)
  | 0, _, _ => .error .malformed
  | fuel + 1, close, .value :: rest =>
    let isNothing := rest.head?.any fun t => t == .comma || t == close
    readUnless handles fuel isNothing .flow rest
  | _ + 1, _, rest => .ok (.nothing, rest)

end

/-- What the directives before a document declare. -/
structure Directives where
  /-- Whether a version is declared. -/
  hasVersion : Bool
  /-- The short forms of tags. -/
  handles : List (Text × Text)

/-- The directives that come next, and the tokens behind them. -/
def directives (d : Directives) : List Token → Except Fault (Behind Directives)
  | .version major :: rest =>
    if d.hasVersion || major != 1 then .error .malformed
    else directives { d with hasVersion := true } rest
  | .shorthand handle tagStart :: rest =>
    if (d.handles.lookup handle).isSome then .error .malformed
    else directives { d with handles := d.handles ++ [(handle, tagStart)] } rest
  | .directive :: rest => directives d rest
  | rest => .ok (d, rest)

/-- Whether a token may follow a document without content. -/
def isBetween : Option Token → Bool
  | none => true
  | some (.version _) => true
  | some (.shorthand _ _) => true
  | some .directive => true
  | some .documentStart => true
  | some .documentEnd => true
  | _ => false

/-- The rest of a text behind its document: nothing but the marks of its end. -/
def atEnd (tokens : List Token) : Bool :=
  tokens.all (· == .documentEnd)

/-- The node of the only document of a text. A text without a document has none. -/
def ofTokens? (tokens : List Token) : Except Fault (Option Node) := do
  if tokens.isEmpty then return none
  let isImplicit := !isBetween tokens.head? || tokens.head? == some .documentEnd
  let (declared, rest) ←
    if isImplicit then pure (⟨false, []⟩, tokens) else directives ⟨false, []⟩ tokens
  let handles := declared.handles ++ shorthands
  let content ←
    if isImplicit then pure rest
    else
      match rest with
      | .documentStart :: rest => pure rest
      | _ => throw .malformed
  let fuel := 4 * content.length + 4
  let (node, rest) ← readUnless handles fuel (!isImplicit && isBetween content.head?) .block content
  if atEnd rest then return some node else throw .malformed

end Node

end Phrasebook.Document
