import ResolverKit.Code.TypesFile

/-!
# Types files in TypeScript

Records are interfaces; the resolver types of an object type stand in a namespace of their own.
-/

namespace ResolverKit.Code.TypeScript

def memberLines (m : Member) : List Line :=
  (docLines m.doc ++ [Line.top (m.text .typescript)]).map Line.shift

def interfaceLines (name : String) (members : List Member) : List Line :=
  .top ("export interface " ++ name ++ " \x7b") :: members.flatMap memberLines ++ [.top "\x7d"]

def recordLines (r : RecordType) : List Line :=
  docLines r.doc ++ interfaceLines r.name r.members ++ [.blank]

/-- The resolvers that only ask the parent. -/
def defaultLines (g : ResolverGroup) : List Line :=
  .top ("export const " ++ Language.defaultsName .typescript g.type ++ " = \x7b") ::
    g.delegated.map (fun f => .inner (delegateText g.parent f)) ++ [.top "\x7d", .blank]

def argumentLines (g : ResolverGroup) (r : Resolver) : List Line :=
  if r.arguments.isEmpty then []
  else interfaceLines (Language.argsName .typescript g.type r.field) r.arguments ++ [.blank]

def argumentType (g : ResolverGroup) (r : Resolver) : String :=
  if r.arguments.isEmpty then "\x7b\x7d" else Language.argsName .typescript g.type r.field

def resolverLines (g : ResolverGroup) (r : Resolver) : List Line :=
  docLines r.doc ++ [.top (r.signature .typescript g.type g.parent (argumentType g r))]

def typeLines (g : ResolverGroup) : List Line :=
  .top "export interface Type \x7b" ::
    g.resolvers.map (fun r =>
      .inner (r.field ++ ": " ++ Language.resolverName .typescript g.type r.field)) ++
    [.top "\x7d"]

def groupLines (g : ResolverGroup) : List Line :=
  .top ("export namespace " ++ Language.resolversName .typescript g.type ++ " \x7b") ::
    (defaultLines g ++ g.resolvers.flatMap (argumentLines g) ++
      g.resolvers.flatMap (resolverLines g) ++ [Line.blank] ++ typeLines g).map Line.shift ++
    [.top "\x7d", .blank]

def indexLines (groups : List ResolverGroup) : List Line :=
  .top "export interface Resolvers \x7b" ::
    groups.map (fun g =>
      .inner (g.type ++ ": " ++ Language.resolversType .typescript g.type)) ++
    [.top "\x7d", .blank]

def lines (f : TypesFile) : List Line :=
  [.top ("// " ++ generatedNote), .blank] ++ importLines "import" f ++ reexportLines f ++
    f.enums.flatMap (·.lines .typescript) ++ f.unions.flatMap (·.lines .typescript) ++
    f.records.flatMap recordLines ++ f.groups.flatMap groupLines ++ indexLines f.groups

end ResolverKit.Code.TypeScript
