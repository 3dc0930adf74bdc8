import ResolverKit.Code.TypesFile

/-!
# Scaffolds

The files that are written once for each object type, to be completed by hand: one with its
resolvers, and for all types together one with the context type and one that collects the
resolvers.  A scaffold imports from the types file through a placeholder, because only the writer
knows the path.
-/

namespace ResolverKit.Code

open Schema (ObjectType)

/-- Stands for the path of the types file. -/
def placeholder : String := "[TEMPLATE-INTERFACES-PATH]"

/-- A file to write: its path in the directory of the resolvers, its text, and whether it replaces
a file that is there. -/
structure CodeFile where
  path : String
  code : String
  force : Bool
  deriving DecidableEq, Repr

/-! ## Structure -/

/-- A field of a scaffold: the resolver asks the parent, or has to be written. -/
structure ScaffoldField where
  name : String
  delegated : Bool
  deriving DecidableEq, Repr

/-- The scaffold of an object type.  `parent` is the import of the parent's type with its local
name; a root type without a model has none. -/
structure TypeScaffold where
  type : String
  doc : Option String
  parent : Option (String × String)
  fields : List ScaffoldField
  deriving Repr

/-- The parent of a scaffold.  The scaffold declares the name of its type itself, so the type is
imported under another name. -/
def scaffoldParent (p : Plan) (t : ObjectType) : Option (String × String) :=
  let parent := p.parent "" t
  if parent = "" then none
  else if parent = t.name then some (t.name, t.name ++ "Parent")
  else some (parent, parent)

def TypeScaffold.ofType (p : Plan) (t : ObjectType) : TypeScaffold :=
  let parent := scaffoldParent p t
  ⟨t.name, t.description, parent, t.fields.map fun f => ⟨f.name, isDelegated f && parent.isSome⟩⟩

/-! ## Writing -/

/-- The keyword of an import of types. -/
def typeImport : Language → String
  | .typescript => "import"
  | .flow => "import type"

def languageMark : Language → List Line
  | .typescript => []
  | .flow => [.top "/* @flow */"]

def resolverNote : List Line :=
  [.top "// This resolver file was scaffolded by graphqlgen. Edit it freely, it will",
    .top "// not be overwritten unless graphqlgen is run with --force.", .blank]

def ScaffoldField.lines (parent : Option (String × String)) (f : ScaffoldField) : List Line :=
  match parent, f.delegated with
  | some (_, parent), true => [.inner (delegateText parent f.name)]
  | _, _ =>
    let argument := match parent with
      | some (_, parent) => "parent: " ++ parent
      | none => "parent"
    [.inner (f.name ++ ": (" ++ argument ++ ", args, ctx, info) => \x7b"),
      ⟨2, "throw new Error('Resolver not implemented')"⟩, .inner "\x7d,"]

/-- The comment of a scaffold; it stands also for a description of blanks. -/
def scaffoldDoc (description : Option String) : List Line :=
  match description with
  | none => []
  | some "" => []
  | some _ => [.comment (Text.commentText description)]

def TypeScaffold.lines (lang : Language) (s : TypeScaffold) : List Line :=
  languageMark lang ++ resolverNote ++
    [importLine (typeImport lang)
        (lang.resolversName s.type :: s.parent.toList.map importItem) placeholder, .blank] ++
    scaffoldDoc s.doc ++
    .top ("export const " ++ s.type ++ ": " ++ lang.resolversType s.type ++ " = \x7b") ::
      s.fields.flatMap (·.lines s.parent) ++
    [.top "\x7d", .blank]

def contextLines (lang : Language) : List Line :=
  languageMark lang ++
    [.top "// This file was scaffolded by graphqlgen. Add whatever your resolvers need",
      .top "// on the request context.", .blank] ++
    match lang with
    | .typescript =>
      [.top "export interface Context \x7b", .inner "db: any", .inner "request: any",
        .top "\x7d", .blank]
    | .flow =>
      [.top "export type Context = \x7b", .inner "db: any,", .inner "request: any,",
        .top "\x7d", .blank]

def indexFileLines (lang : Language) (types : List String) : List Line :=
  languageMark lang ++ resolverNote ++ [importLine (typeImport lang) ["Resolvers"] placeholder] ++
    types.map (fun t => importLine "import" [t] ("./" ++ t)) ++ [.blank] ++
    .top "export const resolvers: Resolvers = \x7b" :: types.map (fun t => .inner (t ++ ",")) ++
    [.top "\x7d", .blank]

/-- All scaffolds of a plan: the types, the context, the collection. -/
def scaffolds (lang : Language) (p : Plan) : List CodeFile :=
  let types := p.schema.objects
  types.map (fun t =>
    ⟨t.name ++ lang.extension, renderLines ((TypeScaffold.ofType p t).lines lang), false⟩) ++
  [⟨"types/Context" ++ lang.extension, renderLines (contextLines lang), false⟩,
    ⟨"index" ++ lang.extension, renderLines (indexFileLines lang (types.map (·.name))), false⟩]

end ResolverKit.Code
