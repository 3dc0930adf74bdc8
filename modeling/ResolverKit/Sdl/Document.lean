import ResolverKit.Sdl.Token

/-!
# Documents

The syntax tree of a schema text.  A document is a list of definitions; definitions and
extensions of types share one `TypeShape`.  Besides the type system, the tree holds operations
and fragments, which a schema text may contain although a schema may not.

`Definition.name?` is the name under which a definition can be asked for, and
`Definition.references` lists the names of the types it mentions.
-/

namespace ResolverKit.Sdl

/-! ## Types and values -/

/-- A type as it is written at a field or an argument; `required` is the exclamation mark. -/
inductive TypeRef
  | named (name : String) (required : Bool)
  | list (item : TypeRef) (required : Bool)
  deriving DecidableEq, Repr

/-- The name below all lists. -/
def TypeRef.base : TypeRef → String
  | .named n _ => n
  | .list t _ => t.base

/-- A value as it is written.  Numbers keep their spelling. -/
inductive Value
  | variable (name : String)
  | int (text : String)
  | float (text : String)
  | string (lit : StringLit)
  | boolean (b : Bool)
  | null
  | enum (name : String)
  | list (items : List Value)
  | object (fields : List (String × Value))
  deriving Repr

/-- An argument at a use of a directive or a field. -/
structure Argument where
  name : String
  value : Value
  deriving Repr

/-- A use of a directive. -/
structure Directive where
  name : String
  arguments : List Argument
  deriving Repr

/-! ## Type system -/

/-- An argument of a field or a directive, or a field of an input type. -/
structure InputValue where
  description : Option StringLit
  name : String
  type : TypeRef
  default : Option Value
  directives : List Directive
  deriving Repr

/-- A field of an object or an interface. -/
structure FieldDef where
  description : Option StringLit
  name : String
  arguments : List InputValue
  type : TypeRef
  directives : List Directive
  deriving Repr

structure EnumValue where
  description : Option StringLit
  name : String
  directives : List Directive
  deriving Repr

inductive TypeKind
  | scalar | object | interface | union | enum | input
  deriving DecidableEq, Repr

def TypeKind.keyword : TypeKind → String
  | .scalar => "scalar"
  | .object => "type"
  | .interface => "interface"
  | .union => "union"
  | .enum => "enum"
  | .input => "input"

/-- The kind of type whose definition this keyword starts. -/
def TypeKind.ofKeyword? : String → Option TypeKind
  | "scalar" => some .scalar
  | "type" => some .object
  | "interface" => some .interface
  | "union" => some .union
  | "enum" => some .enum
  | "input" => some .input
  | _ => none

/-- What a definition or an extension of a type says about the type. -/
inductive TypeShape
  | scalar
  | object (interfaces : List String) (fields : List FieldDef)
  | interface (interfaces : List String) (fields : List FieldDef)
  | union (members : List String)
  | enum (values : List EnumValue)
  | input (fields : List InputValue)
  deriving Repr

def TypeShape.kind : TypeShape → TypeKind
  | .scalar => .scalar
  | .object _ _ => .object
  | .interface _ _ => .interface
  | .union _ => .union
  | .enum _ => .enum
  | .input _ => .input

/-- The shape says nothing about the type beyond its kind. -/
def TypeShape.isBare : TypeShape → Bool
  | .scalar => true
  | .object interfaces fields => interfaces.isEmpty && fields.isEmpty
  | .interface interfaces fields => interfaces.isEmpty && fields.isEmpty
  | .union members => members.isEmpty
  | .enum values => values.isEmpty
  | .input fields => fields.isEmpty

inductive OperationKind
  | query | mutation | subscription
  deriving DecidableEq, Repr

def OperationKind.text : OperationKind → String
  | .query => "query"
  | .mutation => "mutation"
  | .subscription => "subscription"

def OperationKind.ofText? : String → Option OperationKind
  | "query" => some .query
  | "mutation" => some .mutation
  | "subscription" => some .subscription
  | _ => none

/-! ## Operations -/

structure VariableDef where
  description : Option StringLit
  name : String
  type : TypeRef
  default : Option Value
  directives : List Directive
  deriving Repr

/-- One entry of a selection set. -/
inductive Selection
  | field (alias? : Option String) (name : String) (arguments : List Argument)
      (directives : List Directive) (selections : Option (List Selection))
  | spread (name : String) (directives : List Directive)
  | inline (on? : Option String) (directives : List Directive) (selections : List Selection)
  deriving Repr

/-! ## Definitions -/

inductive Definition
  | operation (description : Option StringLit) (kind : OperationKind) (name : Option String)
      (vars : List VariableDef) (directives : List Directive) (selections : List Selection)
  | fragment (description : Option StringLit) (name : String) (on : String)
      (directives : List Directive) (selections : List Selection)
  | schema (description : Option StringLit) (directives : List Directive)
      (operations : List (OperationKind × String))
  | extendSchema (directives : List Directive) (operations : List (OperationKind × String))
  | type (description : Option StringLit) (name : String) (directives : List Directive)
      (shape : TypeShape)
  | extendType (name : String) (directives : List Directive) (shape : TypeShape)
  | directive (description : Option StringLit) (name : String) (arguments : List InputValue)
      (directives : List Directive) (repeatable : Bool) (locations : List String)
  | extendDirective (name : String) (directives : List Directive)
  deriving Repr

/-- A parsed schema text. -/
abbrev Document := List Definition

/-- The name under which a definition can be asked for; a schema definition has none. -/
def Definition.name? : Definition → Option String
  | .operation _ _ name _ _ _ => name
  | .fragment _ name _ _ _ => some name
  | .schema _ _ _ => none
  | .extendSchema _ _ => none
  | .type _ name _ _ => some name
  | .extendType name _ _ => some name
  | .directive _ name _ _ _ _ => some name
  | .extendDirective name _ => some name

/-! ## References -/

/-- The types that a field definition mentions. -/
def FieldDef.references (f : FieldDef) : List String :=
  f.type.base :: f.arguments.map (·.type.base)

def TypeShape.references : TypeShape → List String
  | .scalar => []
  | .object interfaces fields => interfaces ++ fields.flatMap (·.references)
  | .interface interfaces fields => interfaces ++ fields.flatMap (·.references)
  | .union members => members
  | .enum _ => []
  | .input fields => fields.map (·.type.base)

mutual

def Selection.references : Selection → List String
  | .field _ _ _ _ none => []
  | .field _ _ _ _ (some selections) => selectionReferences selections
  | .spread _ _ => []
  | .inline on? _ selections => on?.toList ++ selectionReferences selections

/-- The types that a selection set mentions. -/
def selectionReferences : List Selection → List String
  | [] => []
  | s :: r => s.references ++ selectionReferences r

end

/-- The names of the types that a definition mentions anywhere inside it. -/
def Definition.references : Definition → List String
  | .operation _ _ _ vars _ selections =>
    vars.map (·.type.base) ++ selectionReferences selections
  | .fragment _ _ on _ selections => on :: selectionReferences selections
  | .schema _ _ operations => operations.map (·.2)
  | .extendSchema _ operations => operations.map (·.2)
  | .type _ _ _ shape => shape.references
  | .extendType _ _ shape => shape.references
  | .directive _ _ arguments _ _ _ => arguments.map (·.type.base)
  | .extendDirective _ _ => []

end ResolverKit.Sdl
