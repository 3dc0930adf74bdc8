import ResolverKit.Sdl.Document
import ResolverKit.Number.Double

/-!
# Schemas

A schema as the generators see it: object and interface types, enums, unions, input types and
scalars, each in the order of its definition, with every extension merged in.  Every use of a
type says of which kind the type is, whether it is a list, and which parts of it may be null.
-/

namespace ResolverKit

open Sdl (TypeKind)

namespace Schema

/-- A default value.  An object keeps the order of its keys. -/
inductive Literal
  | null
  | boolean (b : Bool)
  | int (i : Int)
  | float (x : Number.Double)
  | string (s : String)
  | list (items : List Literal)
  | object (fields : List (String × Literal))
  deriving Repr

/-- One value, or a list of values of which each may have to be there. -/
inductive Multiplicity
  | one
  | many (itemRequired : Bool)
  deriving DecidableEq, Repr

/-- A use of a type at a field or an argument. -/
structure TypeUse where
  name : String
  kind : TypeKind
  multiplicity : Multiplicity
  required : Bool
  deriving DecidableEq, Repr

/-- Values of scalars and enums need no resolver of their own. -/
def TypeUse.isLeaf (t : TypeUse) : Bool := t.kind = .scalar || t.kind = .enum

structure Argument where
  name : String
  type : TypeUse
  default : Literal
  deriving Repr

/-- A field of an object, an interface or an input type; the last has no arguments. -/
structure Field where
  name : String
  type : TypeUse
  arguments : List Argument
  description : Option String
  deriving Repr

/-- An object type or an interface. -/
structure ObjectType where
  name : String
  isInterface : Bool
  fields : List Field
  implements : List String
  description : Option String
  deriving Repr

structure InputType where
  name : String
  fields : List Field
  description : Option String
  deriving Repr

structure EnumType where
  name : String
  values : List String
  description : Option String
  deriving Repr

structure UnionType where
  name : String
  members : List String
  description : Option String
  deriving Repr

/-- A scalar that the schema defines. -/
structure ScalarType where
  name : String
  description : Option String
  deriving Repr

/-- The names of the types at which operations start. -/
def rootNames : List String := ["Query", "Mutation", "Subscription"]

def builtinScalars : List String := ["String", "Int", "Float", "Boolean", "ID"]

/-- Operations start at this type. -/
def ObjectType.isRoot (t : ObjectType) : Bool := rootNames.contains t.name

def ObjectType.kind (t : ObjectType) : TypeKind := if t.isInterface then .interface else .object

end Schema

/-- A schema; every collection keeps the order of the definitions. -/
structure Schema where
  types : List Schema.ObjectType
  enums : List Schema.EnumType
  unions : List Schema.UnionType
  inputs : List Schema.InputType
  scalars : List Schema.ScalarType
  deriving Repr

/-- The object types; interfaces have no resolvers. -/
def Schema.objects (s : Schema) : List Schema.ObjectType := s.types.filter (!·.isInterface)

end ResolverKit
