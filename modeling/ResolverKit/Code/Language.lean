import ResolverKit.Schema.Basic
import ResolverKit.Text.Capital

/-!
# Target languages

The two languages that code is generated for, and how each of them names and writes the things
that both have: the file extension, the parent of root types, the type without values, scalars,
nullable types and lists.
-/

namespace ResolverKit.Code

inductive Language
  | typescript | flow
  deriving DecidableEq, Repr

namespace Language

/-- How a configuration names a language. -/
def name : Language → String
  | .typescript => "typescript"
  | .flow => "flow"

def all : List Language := [.typescript, .flow]

def ofName? (s : String) : Option Language := all.find? (·.name = s)

def extension : Language → String
  | .typescript => ".ts"
  | .flow => ".js"

/-- The type of the parent of a root type without a model. -/
def rootParent : Language → String
  | .typescript => "undefined"
  | .flow => "void"

/-- The type without values. -/
def emptyType : Language → String
  | .typescript => "never"
  | .flow => "empty"

/-- The type of a scalar; a scalar that is not built in may be anything. -/
def scalarType (_ : Language) (scalar : String) : String :=
  match scalar with
  | "String" => "string"
  | "ID" => "string"
  | "Int" => "number"
  | "Float" => "number"
  | "Boolean" => "boolean"
  | _ => "any"

/-- A type whose values may be missing. -/
def nullable : Language → String → String
  | .typescript, t => t ++ " | null"
  | .flow, t => "?" ++ t

/-- A type that is nullable unless it is required. -/
def optionally (lang : Language) (required : Bool) (t : String) : String :=
  if required then t else lang.nullable t

/-- The type of the values at a use of a schema type whose base type is written as `base`. -/
def typeText (lang : Language) (base : String) (multiplicity : Schema.Multiplicity)
    (required : Bool) : String :=
  lang.optionally required <|
    match multiplicity with
    | .one => base
    | .many itemRequired => "Array<" ++ lang.optionally itemRequired base ++ ">"

/-! ## Names of declarations -/

/-- The record of the arguments of a field. -/
def argsName : Language → (type field : String) → String
  | .typescript, _, field => "Args" ++ Text.capitalize field
  | .flow, type, field => type ++ "_" ++ Text.capitalize field ++ "_Args"

/-- The type of the resolver of a field. -/
def resolverName : Language → (type field : String) → String
  | .typescript, _, field => Text.capitalize field ++ "Resolver"
  | .flow, type, field => type ++ "_" ++ Text.capitalize field ++ "_Resolver"

/-- The constant with the resolvers that only ask the parent. -/
def defaultsName : Language → (type : String) → String
  | .typescript, _ => "defaultResolvers"
  | .flow, type => type ++ "_defaultResolvers"

/-- The name under which another file imports what belongs to the resolvers of a type. -/
def resolversName : Language → (type : String) → String
  | .typescript, type => type ++ "Resolvers"
  | .flow, type => type ++ "_Resolvers"

/-- The type of all resolvers of a type. -/
def resolversType : Language → (type : String) → String
  | .typescript, type => type ++ "Resolvers.Type"
  | .flow, type => type ++ "_Resolvers"

end Language

end ResolverKit.Code
