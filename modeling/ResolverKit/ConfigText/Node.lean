import ResolverKit.ConfigText.Numeral
import ResolverKit.ConfigText.Timestamp

/-!
# Nodes of configuration texts

A document before its scalars are read is a graph of nodes: an alias leads to the node that it
names, also from within that node.  Every node has a type, either from its tag or, for a plain
scalar without one, from its text.
-/

namespace ResolverKit.ConfigText

open Text (CodeText)

/-! ## Types -/

/-- The types of nodes; `shared` marks the key under which a mapping takes in others. -/
inductive NodeType
  | null | boolean | integer | float | timestamp | binary | text
  | sequence | mapping | set | orderedMap | pairs
  | shared | default | unknown
  deriving DecidableEq, Repr

/-- What stands in front of the names of the types. -/
def typeNamespace : String := "tag:yaml.org,2002:"

def typeNames : List (String × NodeType) :=
  [("null", .null), ("bool", .boolean), ("int", .integer), ("float", .float),
    ("timestamp", .timestamp), ("binary", .binary), ("str", .text), ("seq", .sequence),
    ("map", .mapping), ("set", .set), ("omap", .orderedMap), ("pairs", .pairs),
    ("merge", .shared), ("value", .default)]

def NodeType.ofName (name : String) : NodeType :=
  match typeNames.find? fun (short, _) => typeNamespace ++ short = name with
  | some (_, type) => type
  | none => .unknown

def booleanWords : List (String × Bool) :=
  [("yes", true), ("no", false), ("true", true), ("false", false), ("on", true), ("off", false)]

/-- A word in lower case, in upper case, or in lower case with a capital. -/
def isSpellingOf (word text : String) : Bool :=
  text == word || text == word.toUpper || text == word.capitalize

def plainType (cs : List Char) : NodeType :=
  let text := String.ofList cs
  if booleanWords.any fun (word, _) => isSpellingOf word text then .boolean
  else if isFloat cs then .float
  else if isInteger cs then .integer
  else if text = "<<" then .shared
  else if text = "" || text = "~" || isSpellingOf "null" text then .null
  else if isTimestamp cs then .timestamp
  else if text = "=" then .default
  else if ["!", "&", "*"].contains text then .unknown
  else .text

/-- The type that a text shows: that of its characters but for a line feed at its end. -/
def shownType (text : CodeText) : NodeType :=
  match text.chars? with
  | some ['\n'] => .text
  | some cs => plainType (withoutLineFeed cs)
  | none => .text

/-! ## Documents -/

/-- The place of a node in its document. -/
abbrev NodeId := Nat

inductive Node
  | scalar (type : NodeType) (text : CodeText)
  | sequence (type : NodeType) (items : List NodeId)
  | mapping (type : NodeType) (entries : List (NodeId × NodeId))
  deriving DecidableEq, Repr

def Node.type : Node → NodeType
  | .scalar t _ => t
  | .sequence t _ => t
  | .mapping t _ => t

def Node.withType (t : NodeType) : Node → Node
  | .scalar _ text => .scalar t text
  | .sequence _ items => .sequence t items
  | .mapping _ entries => .mapping t entries

/-- The entries of a mapping; other nodes have none. -/
def Node.entries : Node → List (NodeId × NodeId)
  | .mapping _ entries => entries
  | _ => []

def Node.empty : Node := .scalar .null []

/-- The nodes of a document by their places. -/
abbrev Nodes := Array Node

def Nodes.at (nodes : Nodes) (id : NodeId) : Node := nodes[id]?.getD .empty

/-- A document: its nodes, and the place of the outermost one. -/
structure Document where
  nodes : Nodes
  root : NodeId
  deriving Repr

end ResolverKit.ConfigText
