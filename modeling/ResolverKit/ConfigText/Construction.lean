import ResolverKit.ConfigText.Document
import ResolverKit.ConfigText.Value

/-!
# Construction of values

`read` gives the value of a text.  The nodes of a document are taken level by level: a collection
is made empty where it is met, and waits until all collections met before it have their contents.
So a collection can hold itself, and of two bad scalars the one on the outer level is told.

A mapping takes in the entries of the mappings that it shares in front of its own.  A key that
comes again keeps its place and takes the last value.
-/

namespace ResolverKit.ConfigText

open Text (CodeText)

/-! ## State -/

/-- What a node stands for: an atom, or the collection at its place. -/
inductive Item
  | atom (a : Atom)
  | collection (id : NodeId)
  deriving DecidableEq, Repr

/-- What a collection holds. -/
inductive Content
  | list (items : List Item)
  | pairs (entries : List (Item × Item))
  | set (members : List Atom)
  | mapping (entries : List (Atom × Item))
  deriving Repr

/-- A construction: the nodes, what they stand for as far as they have been met, the contents of
collections, and the collections that wait for theirs, the next one first. -/
structure Construction where
  nodes : Nodes
  items : List (NodeId × Item)
  contents : List (NodeId × Content)
  waiting : List NodeId
  deriving Repr

/-- A part of a construction. -/
abbrev Construct := StateT Construction (Except ReadError)

namespace Construct

def refuse {α : Type} : Construct α := throw .malformed

def refuseScalar {α : Type} (bad : BadScalar) : Construct α := throw (.scalar bad)

def nodeAt (id : NodeId) : Construct Node := return (← get).nodes.at id

def setNode (id : NodeId) (n : Node) : Construct Unit :=
  modify fun s => { s with nodes := s.nodes.setIfInBounds id n }

/-! ## Scalars -/

/-- The text at a place: that of the scalar there, or of the value under the default key of the
mapping there.  A chain of mappings that is longer than `fuel` has no end. -/
def textAt : (fuel : Nat) → NodeId → Construct CodeText
  | 0, _ => refuseScalar .endless
  | fuel + 1, id => do
    match ← nodeAt id with
    | .scalar _ text => return text
    | .sequence _ _ => refuse
    | .mapping _ entries =>
      let nodes := (← get).nodes
      match entries.find? fun (k, _) => (nodes.at k).type = .default with
      | some (_, v) => textAt fuel v
      | none => refuse

/-- The atom of this type at a place.  A mapping has no time of its own. -/
def atomAt (type : NodeType) (id : NodeId) : Construct Atom := do
  let text ← textAt ((← get).nodes.size + 1) id
  match type, ← nodeAt id with
  | .timestamp, .mapping _ _ => refuseScalar .timestampMapping
  | type, _ => readScalar type id text

/-! ## Items -/

def isCollection (type : NodeType) : Bool :=
  [NodeType.sequence, .mapping, .set, .orderedMap, .pairs].contains type

/-- What the node at a place stands for when it is met for the first time. -/
def meet (id : NodeId) : Construct Item := do
  let type := (← nodeAt id).type
  if isCollection type then
    modify fun s => { s with waiting := s.waiting ++ [id] }
    return .collection id
  else return .atom (← atomAt type id)

def itemAt (id : NodeId) : Construct Item := do
  match Keyed.get? id (← get).items with
  | some item => return item
  | none =>
    let item ← meet id
    modify fun s => { s with items := Keyed.put id item s.items }
    return item

def keyAt (id : NodeId) : Construct Atom := do
  match ← itemAt id with
  | .atom a => return a
  | .collection _ => refuse

/-! ## Shared entries -/

def entriesAt (id : NodeId) : Construct (List (NodeId × NodeId)) := return (← nodeAt id).entries

/-- Replaces the entries of the mapping at a place. -/
def setEntries (id : NodeId) (entries : List (NodeId × NodeId)) : Construct Unit := do
  match ← nodeAt id with
  | .mapping type _ => setNode id (.mapping type entries)
  | _ => return

/-- A default key becomes a usual text. -/
def relabel (id : NodeId) : Construct Unit := do
  let n ← nodeAt id
  if n.type = .default then setNode id (n.withType .text)

/-- Removes the first entry under the key for sharing, and gives its value. -/
def nextShared (id : NodeId) : Construct (Option NodeId) := do
  let nodes := (← get).nodes
  let entries ← entriesAt id
  let front := entries.takeWhile fun (k, _) => (nodes.at k).type ≠ .shared
  match entries.drop front.length with
  | (_, v) :: rest =>
    setEntries id (front ++ rest)
    return some v
  | [] => return none

/-- Takes in what the mapping at a place shares; `taken` has been taken in so far.  The fuel is for
the entries under the key for sharing, each of which is removed when its turn comes. -/
def takeShared : (fuel : Nat) → NodeId → (taken : List (NodeId × NodeId)) → Construct Unit
  | 0, _, _ => return
  | fuel + 1, id, taken => do
    let entriesOf (source : NodeId) : Construct (List (NodeId × NodeId)) := do
      match ← nodeAt source with
      | .mapping _ entries =>
        entries.forM fun (k, _) => relabel k
        takeShared fuel source []
        entriesAt source
      | _ => refuse
    match ← nextShared id with
    | none => setEntries id (taken ++ (← entriesAt id))
    | some source =>
      let more ← match ← nodeAt source with
        | .sequence _ sources => pure (← sources.mapM entriesOf).reverse.flatten
        | _ => entriesOf source
      takeShared fuel id (taken ++ more)

/-- The number of entries of all mappings. -/
def entryCount (nodes : Nodes) : Nat := nodes.toList.foldl (fun n node => n + node.entries.length) 0

/-- Brings the mapping at a place into its final form. -/
def flatten (id : NodeId) : Construct Unit := do
  (← entriesAt id).forM fun (k, _) => relabel k
  takeShared (entryCount (← get).nodes + 1) id []

/-! ## Contents -/

def mappingAt (id : NodeId) : Construct (List (Atom × Item)) := do
  flatten id
  (← entriesAt id).foldlM (fun acc (k, v) => do
    let key ← keyAt k
    return putKey key (← itemAt v) acc) []

/-- The one entry of the mapping at a place. -/
def pairAt (id : NodeId) : Construct (Item × Item) := do
  match ← entriesAt id with
  | [(k, v)] =>
    let key ← itemAt k
    return (key, ← itemAt v)
  | _ => refuse

/-- What the collection at a place holds. -/
def contentAt (id : NodeId) : Construct Content := do
  match ← nodeAt id with
  | .sequence .sequence items => return .list (← items.mapM itemAt)
  | .sequence .orderedMap items => return .pairs (← items.mapM pairAt)
  | .sequence .pairs items => return .pairs (← items.mapM pairAt)
  | .mapping .mapping _ => return .mapping (← mappingAt id)
  | .mapping .set _ => return .set ((← mappingAt id).map (·.1))
  | _ => refuse

/-- Gives the collections that wait their contents; no more than `fuel` of them come. -/
def fill : (fuel : Nat) → Construct Unit
  | 0 => return
  | fuel + 1 => do
    match (← get).waiting with
    | [] => return
    | id :: waiting =>
      modify fun s => { s with waiting }
      let content ← contentAt id
      modify fun s => { s with contents := Keyed.put id content s.contents }
      fill fuel

def documentItem (root : NodeId) : Construct Item := do
  let item ← itemAt root
  fill ((← get).nodes.size + 1)
  return item

end Construct

/-! ## Values -/

/-- The value of an item down to a depth; a collection that lies deeper is shown without its
contents. -/
def valueOf (contents : List (NodeId × Content)) : (depth : Nat) → Item → Value
  | _, .atom a => .atom a
  | depth, .collection id =>
    match Keyed.get? id contents, depth with
    | some (.list items), depth + 1 => .list (items.map (valueOf contents depth))
    | some (.pairs entries), depth + 1 =>
      .list (entries.map fun (k, v) => .list [valueOf contents depth k, valueOf contents depth v])
    | some (.set members), _ => .set members
    | some (.mapping entries), depth + 1 =>
      .mapping (entries.map fun (k, v) => (k, valueOf contents depth v))
    | some (.mapping _), 0 => .mapping []
    | _, _ => .list []

/-- The value of a document down to a depth. -/
def Document.value (d : Document) (depth : Nat) : Except ReadError Value := do
  let (item, s) ← Construct.documentItem d.root ⟨d.nodes, [], [], []⟩
  return valueOf s.contents depth item

/-- The value of a text down to a depth; a text without a document has the value `null`. -/
def read (depth : Nat) (text : String) : Except ReadError Value := do
  match ← parse text.toList with
  | some d => d.value depth
  | none => return .atom .null

end ResolverKit.ConfigText
