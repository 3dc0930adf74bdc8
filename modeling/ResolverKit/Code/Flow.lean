import ResolverKit.Code.TypesFile

/-!
# Types files in Flow

Records are object types, exact unless they are open; the resolver types of an object type carry
its name in front.
-/

namespace ResolverKit.Code.Flow

def memberLines (members : List Member) : List Line :=
  members.map fun m => .inner (m.text .flow ++ ",")

def exactLines (name : String) (members : List Line) : List Line :=
  .top ("export type " ++ name ++ " = \x7b|") :: members ++ [.top "|\x7d", .blank]

/-- An object type that may have further members. -/
def openLines (name : String) (members : List Line) : List Line :=
  .top ("export type " ++ name ++ " = \x7b") :: members ++ [.top "\x7d", .blank]

/-- A record with its comment; its members have none. -/
def recordLines (r : RecordType) : List Line :=
  docLines r.doc ++
    if r.isOpen then openLines r.name (memberLines r.members)
    else exactLines r.name (memberLines r.members)

/-- The resolvers that only ask the parent. -/
def defaultLines (g : ResolverGroup) : List Line :=
  .top ("export const " ++ Language.defaultsName .flow g.type ++ " = \x7b") ::
    g.delegated.map (fun f => .inner (delegateText g.parent f)) ++ [.top "\x7d", .blank]

/-- The record of the arguments of a resolver, if it has arguments. -/
def argumentLines (g : ResolverGroup) (r : Resolver) : List Line :=
  if r.arguments.isEmpty then []
  else exactLines (Language.argsName .flow g.type r.field) (memberLines r.arguments)

def argumentType (g : ResolverGroup) (r : Resolver) : String :=
  if r.arguments.isEmpty then "\x7b||\x7d" else Language.argsName .flow g.type r.field

def resolverLine (g : ResolverGroup) (r : Resolver) : Line :=
  .top (r.signature .flow g.type g.parent (argumentType g r))

def typeLines (g : ResolverGroup) : List Line :=
  exactLines (Language.resolversName .flow g.type) <|
    g.resolvers.map fun r =>
      .inner (r.field ++ ": " ++ Language.resolverName .flow g.type r.field ++ ",")

def groupLines (g : ResolverGroup) : List Line :=
  .top ("// Resolvers for " ++ g.type) :: defaultLines g ++
    g.resolvers.flatMap (argumentLines g) ++ g.resolvers.map (resolverLine g) ++ [.blank] ++
    typeLines g

def indexLines (groups : List ResolverGroup) : List Line :=
  exactLines "Resolvers" <|
    groups.map fun g => .inner (g.type ++ ": " ++ Language.resolversType .flow g.type ++ ",")

def lines (f : TypesFile) : List Line :=
  [.top "/* @flow */", .top ("// " ++ generatedNote), .blank] ++ importLines "import type" f ++
    reexportLines f ++ f.enums.flatMap (·.lines .flow) ++ f.unions.flatMap (·.lines .flow) ++
    f.records.flatMap recordLines ++ f.groups.flatMap groupLines ++ indexLines f.groups

end ResolverKit.Code.Flow
