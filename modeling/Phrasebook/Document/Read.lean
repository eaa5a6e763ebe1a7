import Phrasebook.Document.Lexer
import Phrasebook.Document.Node
import Phrasebook.Document.Scalar

/-!
# The value of a document

A document has the value that its node stands for. References are replaced by the nodes they name
first. A map may take further entries from other maps; its own entries come after them and win.
-/

namespace Phrasebook.Document

/-- The nodes with a name so far, the last one first. -/
abbrev Named := List (Text × Node)

/-- Give a node its name, if it has one. A name may be given once. -/
def nameOnce (named : Named) (p : Properties) (node : Node) : Except Fault Named :=
  match p.anchor with
  | none => .ok named
  | some name =>
    if (named.lookup name).isSome then .error .malformed else .ok ((name, node) :: named)

/-- Give a complete node its name in place of the incomplete one. -/
def nameAgain (named : Named) (p : Properties) (node : Node) : Named :=
  match p.anchor with
  | none => named
  | some name => (name, node) :: named

mutual

/-- A node with the nodes that its references name. A reference to a list or map from within it
gets an empty one. -/
def resolve (named : Named) : Node → Except Fault (Node × Named)
  | .alias name =>
    match named.lookup name with
    | some node => .ok (node, named)
    | none => .error .malformed
  | .scalar p style t => do
    return (.scalar p style t, ← nameOnce named p (.scalar p style t))
  | .list p items => do
    let (items, named) ← resolveAll (← nameOnce named p (.list p [])) items
    return (.list p items, nameAgain named p (.list p items))
  | .map p entries => do
    let (entries, named) ← resolveEntries (← nameOnce named p (.map p [])) entries
    return (.map p entries, nameAgain named p (.map p entries))

/-- Several nodes with the nodes that their references name. -/
def resolveAll (named : Named) : List Node → Except Fault (List Node × Named)
  | [] => .ok ([], named)
  | node :: nodes => do
    let (node, named) ← resolve named node
    let (nodes, named) ← resolveAll named nodes
    return (node :: nodes, named)

/-- The entries of a map with the nodes that their references name. -/
def resolveEntries (named : Named) :
    List (Node × Node) → Except Fault (List (Node × Node) × Named)
  | [] => .ok ([], named)
  | (key, value) :: entries => do
    let (key, named) ← resolve named key
    let (value, named) ← resolve named value
    let (entries, named) ← resolveEntries named entries
    return ((key, value) :: entries, named)

end

/-- The tag of the format with a short name. -/
def standardTag (name : String) : Text :=
  "tag:yaml.org,2002:".toList ++ name.toList

/-- The kinds of value that tags ask for. -/
def taggedMeanings : List (Text × Meaning) :=
  [(standardTag "null", .null), (standardTag "bool", .bool), (standardTag "int", .int),
    (standardTag "float", .double), (standardTag "str", .text), (standardTag "timestamp", .time),
    (standardTag "merge", .merge), (standardTag "value", .default)]

/-- Whether a tag leaves it to the node what it means. -/
def isOpenTag (tag : Option Text) : Bool :=
  tag.all (· == ['!'])

/-- What kind of value a scalar stands for. -/
def scalarMeaning (p : Properties) (style : Style) (t : Text) : Except Fault Meaning :=
  match p.tag with
  | none => .ok (if style == .plain then meaningOf t else .text)
  | some tag =>
    if tag == ['!'] then .ok (meaningOf t)
    else
      match taggedMeanings.lookup tag with
      | some meaning => .ok meaning
      | none => .error .malformed

/-- Whether a text can be read as a kind of value that a tag asks for. -/
def fits (meaning : Meaning) (t : Text) : Bool :=
  match meaning with
  | .null => true
  | .bool => truths.contains t || untruths.contains t
  | .int => isInt (unsigned t).2
  | .double => meaningOf t == .double
  | .text => true
  | .time => (dayOf? t).isSome || (momentOf? t).isSome
  | .merge => false
  | .default => false

/-- The value of a scalar. -/
def scalarValue (p : Properties) (style : Style) (t : Text) : Except Fault Value := do
  let meaning ← scalarMeaning p style t
  if fits meaning t then valueOf meaning t else throw .malformed

/-- The entries that a value adds to the map that it is merged into. Of several maps the last one
comes first. -/
def merged : Value → Except Fault (List (Value × Value))
  | .map entries => .ok entries
  | .list items =>
    items.foldlM
      (fun entries item =>
        match item with
        | .map more => .ok (more ++ entries)
        | _ => .error .malformed)
      []
  | _ => .error .malformed

/-- Whether a node is a scalar with a meaning. -/
def hasMeaning (meaning : Meaning) : Node → Bool
  | .scalar p style t =>
    match scalarMeaning p style t with
    | .ok found => found == meaning
    | .error _ => false
  | _ => false

mutual

/-- The value of a node without references. -/
def build : Node → Except Fault Value
  | .alias _ => .error .malformed
  | .scalar p style t => scalarValue p style t
  | .list p items =>
    if isOpenTag p.tag || p.tag == some (standardTag "seq") then
      return .list (← buildAll items)
    else .error .malformed
  | .map p entries =>
    if isOpenTag p.tag || p.tag == some (standardTag "map") then do
      let (more, own) ← buildEntries entries
      return .map ((more ++ own).foldl (fun es e => Value.setKey e.1 e.2 es) [])
    else .error .malformed

/-- The values of several nodes. -/
def buildAll : List Node → Except Fault (List Value)
  | [] => .ok []
  | node :: nodes => return (← build node) :: (← buildAll nodes)

/-- The entries that are merged into a map, and its own ones. -/
def buildEntries : List (Node × Node) → Except Fault (List (Value × Value) × List (Value × Value))
  | [] => .ok ([], [])
  | (key, value) :: entries =>
    if hasMeaning .merge key then do
      let first ← merged (← build value)
      let (more, own) ← buildEntries entries
      return (first ++ more, own)
    else do
      let k ← if hasMeaning .default key then pure (.text "=".toList) else build key
      if !k.isKey then throw .malformed
      let v ← build value
      let (more, own) ← buildEntries entries
      return (more, (k, v) :: own)

end

/-- The value of a text that has one document, or none. -/
def read (t : Text) : Except Fault (Option Value) := do
  match ← Node.ofTokens? (← tokens t) with
  | none => return none
  | some node => return some (← build (← resolve [] node).1)

end Phrasebook.Document
