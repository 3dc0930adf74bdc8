import ResolverKit.Code.Language
import ResolverKit.Code.Line
import ResolverKit.Model.Local

/-!
# The types file

What the generated file of types declares, before it is written in a language: imports, enums,
unions, records for input types, interfaces and object types, and for each object type a group
of resolver types.  `TypesFile.ofPlan` builds it from a schema and its models.
-/

namespace ResolverKit.Code

open Schema (Field ObjectType TypeUse)
open Model (Bindings ImportGroup)

/-! ## Structure -/

/-- A type as it is written in the file: its name and its modifiers. -/
structure TypeExpr where
  base : String
  multiplicity : Schema.Multiplicity
  required : Bool
  deriving DecidableEq, Repr

/-- A member of a record; `optional` says that it may be left out. -/
structure Member where
  name : String
  optional : Bool
  type : TypeExpr
  doc : Option String
  deriving Repr

/-- A type of one of several names or quoted texts. -/
structure Choice where
  name : String
  doc : Option String
  options : List String
  deriving Repr

/-- A record type; an open one may have more members than it lists. -/
structure RecordType where
  name : String
  doc : Option String
  isOpen : Bool
  members : List Member
  deriving Repr

/-- The resolver of a field: its arguments and its result. -/
structure Resolver where
  field : String
  doc : Option String
  arguments : List Member
  result : TypeExpr
  deriving Repr

/-- The resolvers of an object type.  `delegated` are the fields that only ask the parent. -/
structure ResolverGroup where
  type : String
  parent : String
  delegated : List String
  resolvers : List Resolver
  deriving Repr

/-- What a types file declares. -/
structure TypesFile where
  contextPath : String
  imports : List ImportGroup
  enums : List Choice
  unions : List Choice
  records : List RecordType
  groups : List ResolverGroup
  deriving Repr

/-! ## Models in a file -/

/-- The names that a types file declares in any case. -/
def reservedNames : List String := ["Context", "GraphQLResolveInfo", "Resolvers"]

/-- The names that models may not have in a types file. -/
def usedNames (s : Schema) : List String :=
  reservedNames ++ s.types.map (·.name) ++ s.enums.map (·.name) ++ s.unions.map (·.name) ++
    s.inputs.map (·.name) ++ s.scalars.map (·.name)

/-- What code is generated from: the schema, and the models with their local names. -/
structure Plan where
  schema : Schema
  bindings : Bindings
  locals : List (Model.Key × String)
  deriving Repr

def Plan.of (s : Schema) (bindings : Bindings) : Plan :=
  ⟨s, bindings, Model.nameModels (usedNames s) bindings⟩

/-- The local name of the model behind a schema type. -/
def Plan.model? (p : Plan) (type : String) : Option String :=
  Model.localName? p.locals p.bindings type

/-- The parent of the resolvers of a type: its model, or the type itself; a root type without a
model has the parent `root`. -/
def Plan.parent (p : Plan) (root : String) (t : ObjectType) : String :=
  match p.model? t.name with
  | some model => model
  | none => if t.isRoot then root else t.name

/-- A field that only asks the parent needs no resolver of its own. -/
def isDelegated (f : Field) : Bool := f.type.isLeaf && f.arguments.isEmpty

/-! ## Building -/

/-- A use of a type in data. -/
def dataType (lang : Language) (t : TypeUse) : TypeExpr :=
  ⟨if t.kind = .scalar then lang.scalarType t.name else t.name, t.multiplicity, t.required⟩

/-- A use of a type as the result of a resolver: models stand for their object types. -/
def resultType (lang : Language) (p : Plan) (t : TypeUse) : TypeExpr :=
  match t.kind with
  | .scalar => ⟨lang.scalarType t.name, t.multiplicity, t.required⟩
  | .object => ⟨(p.model? t.name).getD t.name, t.multiplicity, t.required⟩
  | _ => ⟨t.name, t.multiplicity, t.required⟩

def fieldMembers (lang : Language) (fields : List Field) : List Member :=
  fields.map fun f => ⟨f.name, false, dataType lang f.type, f.description⟩

/-- The members for the arguments of a field; one that may be null may be left out. -/
def argumentMembers (lang : Language) (args : List Schema.Argument) : List Member :=
  args.map fun a => ⟨a.name, !a.type.required, dataType lang a.type, none⟩

def Resolver.ofField (lang : Language) (p : Plan) (f : Field) : Resolver :=
  ⟨f.name, f.description, argumentMembers lang f.arguments, resultType lang p f.type⟩

def ResolverGroup.ofType (lang : Language) (p : Plan) (t : ObjectType) : ResolverGroup :=
  let parent := p.parent lang.rootParent t
  { type := t.name
    parent
    delegated :=
      if parent = lang.rootParent then [] else (t.fields.filter isDelegated).map (·.name)
    resolvers := t.fields.map (Resolver.ofField lang p) }

def RecordType.ofInput (lang : Language) (t : Schema.InputType) : RecordType :=
  ⟨t.name, t.description, false, fieldMembers lang t.fields⟩

/-- The record of an object type or an interface; that of an interface is open. -/
def RecordType.ofType (lang : Language) (t : ObjectType) : RecordType :=
  ⟨t.name, t.description, t.isInterface, fieldMembers lang t.fields⟩

/-- The types file of a plan. -/
def TypesFile.ofPlan (lang : Language) (contextPath : String) (p : Plan) : TypesFile where
  contextPath := contextPath
  imports := Model.importGroups p.locals
  enums := p.schema.enums.map fun e =>
    ⟨e.name, e.description, e.values.map fun v => "'" ++ v ++ "'"⟩
  unions := p.schema.unions.map fun u => ⟨u.name, u.description, u.members⟩
  records :=
    p.schema.inputs.map (RecordType.ofInput lang) ++ p.schema.types.map (RecordType.ofType lang)
  groups := p.schema.objects.map (ResolverGroup.ofType lang p)

/-- The local names of all imported models. -/
def TypesFile.models (f : TypesFile) : List String := f.imports.flatMap (·.names.map (·.2))

/-! ## Writing in either language -/

/-- What an import asks for: a name, or a name under another name. -/
def importItem (item : String × String) : String :=
  if item.1 = item.2 then item.1 else item.1 ++ " as " ++ item.2

def bracedNames (names : List String) : String := "\x7b " ++ ", ".intercalate names ++ " \x7d"

def importLine (keyword : String) (names : List String) (path : String) : Line :=
  .top (keyword ++ " " ++ bracedNames names ++ " from '" ++ path ++ "'")

def importLines (keyword : String) (f : TypesFile) : List Line :=
  [importLine keyword ["GraphQLResolveInfo"] "graphql",
    importLine keyword ["Context"] f.contextPath] ++
  f.imports.map (fun g => importLine keyword (g.names.map importItem) g.specifier) ++ [.blank]

/-- The models are exported again, so that other files can import them from the types file. -/
def reexportLines (f : TypesFile) : List Line :=
  match f.models with
  | [] => []
  | models => [.top ("export type " ++ bracedNames models), .blank]

/-- A type of one of several options. -/
def Choice.lines (lang : Language) (c : Choice) : List Line :=
  docLines c.doc ++
    [.top ("export type " ++ c.name ++ " = " ++
      if c.options.isEmpty then lang.emptyType else " | ".intercalate c.options), .blank]

def TypeExpr.text (lang : Language) (t : TypeExpr) : String :=
  lang.typeText t.base t.multiplicity t.required

/-- A member of a record, without what ends it. -/
def Member.text (lang : Language) (m : Member) : String :=
  m.name ++ (if m.optional then "?" else "") ++ ": " ++ m.type.text lang

def Resolver.signature (lang : Language) (type parent args : String) (r : Resolver) : String :=
  let result := r.result.text lang
  "export type " ++ lang.resolverName type r.field ++ " = (parent: " ++ parent ++ ", args: " ++
    args ++ ", ctx: Context, info: GraphQLResolveInfo) => " ++ result ++ " | Promise<" ++ result ++
    ">"

/-- A resolver that only asks the parent. -/
def delegateText (parent field : String) : String :=
  field ++ ": (parent: " ++ parent ++ ") => parent." ++ field ++ ","

/-- The first line of a types file, without the comment marks. -/
def generatedNote : String := "Code generated by graphqlgen, DO NOT EDIT."

end ResolverKit.Code
