import ResolverKit.ConfigText.Lexer
import ResolverKit.ConfigText.Node
import ResolverKit.Keyed

/-!
# Documents of configuration texts

`parse` reads the one document of a text.  A fault of the text counts only when the parser comes to
it: what is wrong in front of it is told first.

The depth that is left is an argument of the readers, and they recurse on it; no document is
nested deeper than it has tokens.
-/

namespace ResolverKit.ConfigText

open Text (CodeText)

/-- What is left of the tokens and the fault behind them, what the directives of the document say,
the named nodes, and all nodes so far. -/
structure Reading where
  tokens : List Token
  fault : Option ReadError
  handles : List (String × String)
  versioned : Bool
  anchors : List (String × NodeId)
  nodes : Nodes
  deriving Repr

/-- The state in front of these tokens. -/
def Reading.start (ts : TokenList) : Reading := ⟨ts.tokens, ts.fault, [], false, [], #[]⟩

/-- A reader of tokens. -/
abbrev Parse := StateT Reading (Except ReadError)

namespace Parse

/-! ## Single tokens -/

def refuse {α : Type} : Parse α := throw .malformed

/-- The token in front; nothing at the end of the text. -/
def peek : Parse (Option Token) := do
  let s ← get
  match s.tokens, s.fault with
  | t :: _, _ => return some t
  | [], some e => throw e
  | [], none => return none

/-- Drops the token in front. -/
def advance : Parse Unit := modify fun s => { s with tokens := s.tokens.tail }

/-- Takes this token if it comes next, and says whether it did. -/
def takes (t : Token) : Parse Bool := do
  if (← peek) = some t then
    advance
    return true
  else return false

/-- One of these tokens comes next. -/
def isNext (ts : List Token) : Parse Bool := return (← peek).any ts.contains

/-- Repeats a reader until it gives nothing.  An item that takes no token is the last one. -/
def collect {α : Type} (item : Parse (Option α)) (s : Reading) :
    Except ReadError (List α × Reading) :=
  match item s with
  | .error e => .error e
  | .ok (none, s') => .ok ([], s')
  | .ok (some a, s') =>
    if s'.tokens.length < s.tokens.length then
      match collect item s' with
      | .error e => .error e
      | .ok (as, s'') => .ok (a :: as, s'')
    else .ok ([a], s')
termination_by s.tokens.length

/-! ## Properties -/

/-- What stands in front of a node: its name and its tag. -/
structure Properties where
  anchor : Option String
  tag : Option String
  deriving DecidableEq, Repr

structure WrittenTag where
  handle : Option String
  suffix : String
  deriving DecidableEq, Repr

/-- What the handles stand for in every document. -/
def standardHandles : List (String × String) := [("!", "!"), ("!!", typeNamespace)]

/-- The full name that a tag stands for. -/
def tagText (t : WrittenTag) : Parse String := do
  match t.handle with
  | none => return t.suffix
  | some h =>
    match Keyed.get? h ((← get).handles ++ standardHandles) with
    | some start => return start ++ t.suffix
    | none => refuse

/-- A name, if one comes next. -/
def anchor? : Parse (Option String) := do
  match ← peek with
  | some (.anchor name) =>
    advance
    return some name
  | _ => return none

def tag? : Parse (Option WrittenTag) := do
  match ← peek with
  | some (.tag handle suffix) =>
    advance
    return some ⟨handle, suffix⟩
  | _ => return none

/-- A name and a tag in either order.  The tag is looked up behind both. -/
def properties : Parse Properties := do
  match ← anchor? with
  | some name =>
    let tag ← tag?
    return ⟨some name, ← tag.mapM tagText⟩
  | none =>
    match ← tag? with
    | some tag =>
      let name ← anchor?
      return ⟨name, some (← tagText tag)⟩
    | none => return ⟨none, none⟩

/-- The type that a tag names; `usual` if there is no tag or one that names none. -/
def typeFor (tag : Option String) (usual : NodeType) : NodeType :=
  match tag with
  | none => usual
  | some "!" => usual
  | some name => .ofName name

def scalarType (tag : Option String) (plain : Bool) (text : CodeText) : NodeType :=
  if plain || tag.isSome then typeFor tag (shownType text) else .text

/-! ## Places -/

def add (n : Node) : Parse NodeId := do
  let id := (← get).nodes.size
  modify fun s => { s with nodes := s.nodes.push n }
  return id

def complete (id : NodeId) (n : Node) : Parse Unit :=
  modify fun s => { s with nodes := s.nodes.setIfInBounds id n }

def addEmpty : Parse NodeId := add .empty

/-- A name that a node gets may not be in use. -/
def checkName (name : Option String) : Parse Unit :=
  match name with
  | none => return
  | some name => do if (Keyed.get? name (← get).anchors).isSome then refuse

def declare (name : Option String) (id : NodeId) : Parse Unit :=
  match name with
  | none => return
  | some name => modify fun s => { s with anchors := Keyed.put name id s.anchors }

/-! ## Collections -/

/-- A node, unless one of these tokens shows that there is none. -/
def nodeUnless (node : Parse NodeId) (ends : List Token) : Parse NodeId := do
  if ← isNext ends then addEmpty
  else node

/-- The next item of a block sequence. -/
def blockItem (node : Parse NodeId) : Parse (Option NodeId) := do
  if ← takes .blockEntry then return some (← nodeUnless node [.blockEntry, .blockEnd])
  else if ← takes .blockEnd then return none
  else refuse

/-- The next item of a sequence that is indented no further than the key above it. -/
def indentlessItem (node : Parse NodeId) : Parse (Option NodeId) := do
  if ← takes .blockEntry then
    return some (← nodeUnless node [.blockEntry, .key, .value, .blockEnd])
  else return none

/-- What follows a key. -/
def valueUnless (node : Parse NodeId) (ends : List Token) : Parse NodeId := do
  if ← takes .value then nodeUnless node ends else addEmpty

/-- The next entry of a block mapping. -/
def blockPair (node : Parse NodeId) : Parse (Option (NodeId × NodeId)) := do
  if ← takes .key then
    let ends := [Token.key, .value, .blockEnd]
    let k ← nodeUnless node ends
    return some (k, ← valueUnless node ends)
  else if ← takes .blockEnd then return none
  else refuse

/-- The comma in front of all items but the first. -/
def separator (first : Bool) : Parse Unit := do
  if !first then
    if !(← takes .flowEntry) then refuse

/-- A key with its value in a flow collection that ends with `close`. -/
def flowPair (node : Parse NodeId) (close : Token) : Parse (NodeId × NodeId) := do
  let k ← nodeUnless node [.value, .flowEntry, close]
  return (k, ← valueUnless node [.flowEntry, close])

/-- The next item of a flow sequence; a key with its value is a mapping of its own. -/
def flowItem (node : Parse NodeId) (first : Bool) : Parse (Option NodeId) := do
  if ← takes .flowSequenceEnd then return none
  separator first
  if ← takes .key then
    let pair ← flowPair node .flowSequenceEnd
    return some (← add (.mapping .mapping [pair]))
  else if ← takes .flowSequenceEnd then return none
  else return some (← node)

/-- The next entry of a flow mapping; a key may stand without a value. -/
def flowEntry (node : Parse NodeId) (first : Bool) : Parse (Option (NodeId × NodeId)) := do
  if ← takes .flowMappingEnd then return none
  separator first
  if ← takes .key then return some (← flowPair node .flowMappingEnd)
  else if ← takes .flowMappingEnd then return none
  else return some (← node, ← addEmpty)

def flowAll {α : Type} (item : (first : Bool) → Parse (Option α)) : Parse (List α) := do
  match ← item true with
  | none => return []
  | some a => return a :: (← collect (item false))

/-- A sequence of these items; its name is known to them. -/
def sequence (p : Properties) (items : Parse (List NodeId)) : Parse NodeId := do
  let type := typeFor p.tag .sequence
  checkName p.anchor
  let id ← add (.sequence type [])
  declare p.anchor id
  complete id (.sequence type (← items))
  return id

/-- A mapping of these entries; its name is known to them. -/
def mapping (p : Properties) (entries : Parse (List (NodeId × NodeId))) : Parse NodeId := do
  let type := typeFor p.tag .mapping
  checkName p.anchor
  let id ← add (.mapping type [])
  declare p.anchor id
  complete id (.mapping type (← entries))
  return id

/-! ## Nodes -/

def scalar (p : Properties) (plain : Bool) (text : CodeText) : Parse NodeId := do
  checkName p.anchor
  let id ← add (.scalar (scalarType p.tag plain text) text)
  declare p.anchor id
  return id

def aliasedNode (name : String) : Parse NodeId := do
  match Keyed.get? name (← get).anchors with
  | some id => return id
  | none => refuse

/-- Where a node stands: in a flow collection, in a block, or as the value of a key in a block,
where the dashes of a sequence need no further indentation. -/
inductive Context
  | flow | block | blockValue
  deriving DecidableEq, Repr

/-- A node whose collections are nested at most this deep. -/
def node : (depth : Nat) → Context → Parse NodeId
  | 0, _ => refuse
  | depth + 1, context => do
    match ← peek with
    | some (.aliasOf name) =>
      advance
      aliasedNode name
    | _ =>
      let p ← properties
      let inFlow := node depth .flow
      match ← peek with
      | some .blockEntry =>
        if context = .blockValue then sequence p (collect (indentlessItem (node depth .block)))
        else missing p
      | some (.scalar text plain) =>
        advance
        scalar p plain text
      | some .flowSequenceStart =>
        advance
        sequence p (flowAll (flowItem inFlow))
      | some .flowMappingStart =>
        advance
        mapping p (flowAll (flowEntry inFlow))
      | some .blockSequenceStart =>
        if context = .flow then missing p
        else
          advance
          sequence p (collect (blockItem (node depth .block)))
      | some .blockMappingStart =>
        if context = .flow then missing p
        else
          advance
          mapping p (collect (blockPair (node depth .blockValue)))
      | _ => missing p
where
  /-- A place without content is a scalar if a name or a tag stands there. -/
  missing (p : Properties) : Parse NodeId :=
    if p.anchor.isSome || p.tag.isSome then scalar p true [] else refuse

/-! ## Documents -/

/-- Takes in what a directive says: the version is said once and is the first, and each handle is
declared once. -/
def heed : Directive → Parse Unit
  | .version major _ => do
    if (← get).versioned || major ≠ 1 then refuse
    modify fun s => { s with versioned := true }
  | .tag handle start => do
    if (Keyed.get? handle (← get).handles).isSome then refuse
    modify fun s => { s with handles := (handle, start) :: s.handles }
  | .other => return

def directive? : Parse (Option Unit) := do
  match ← peek with
  | some (.directive d) =>
    advance
    return some (← heed d)
  | _ => return none

/-- The directives of a document and the mark behind them. -/
def prologue : Parse Unit := do
  modify fun s => { s with handles := [], versioned := false }
  discard (collect directive?)
  if !(← takes .documentStart) then refuse

/-- The document whose start is marked. -/
def markedDocument (depth : Nat) : Parse NodeId := do
  prologue
  match ← peek with
  | none => addEmpty
  | some (.directive _) => addEmpty
  | some .documentStart => addEmpty
  | some .documentEnd => addEmpty
  | _ => node depth .block

/-- A mark at the end of a document, if one comes next. -/
def endMark : Parse (Option Unit) := do
  if ← takes .documentEnd then return some ()
  else return none

/-- The document of a text, if it has one. -/
def document (depth : Nat) : Parse (Option NodeId) := do
  match ← peek with
  | none => return none
  | some (.directive _) => return some (← markedDocument depth)
  | some .documentStart => return some (← markedDocument depth)
  | _ => return some (← node depth .block)

/-- The only document of a text, with the marks behind it. -/
def onlyDocument (depth : Nat) : Parse (Option NodeId) := do
  match ← document depth with
  | none => return none
  | some root =>
    discard (collect endMark)
    if (← peek).isSome then
      prologue
      refuse
    return some root

end Parse

/-- The document of a text; nothing if there is none. -/
def parse (text : List Char) : Except ReadError (Option Document) := do
  let ts := tokens text
  let (root, s) ← Parse.onlyDocument (ts.tokens.length + 1) (.start ts)
  return root.map fun id => ⟨s.nodes, id⟩

end ResolverKit.ConfigText
