import ResolverKit.Proofs.PlanNames
import ResolverKit.Proofs.TypesReading

/-!
# Reading a types file

A types file can be read back.  If all its names are words, its lines say what the file declares,
in either language and whatever its descriptions and paths are:

    f.HasNames IsWord → read (f.lines lang) = some (f.statements lang)              (read_lines)

The statements are the same in both languages, but for the names of the declarations and the
namespace around the resolver types of a type.
-/

namespace ResolverKit.Code

/-! ## Resolvers -/

/-- The block with the resolvers that only ask the parent. -/
def defaultStatements (lang : Language) (g : ResolverGroup) : List Statement :=
  .opens "const" (lang.defaultsName g.type) :: g.delegated.map (.asks · g.parent) ++ [.closes]

def argumentStatements (lang : Language) (g : ResolverGroup) : List Statement :=
  g.resolvers.flatMap fun r =>
    if r.arguments.isEmpty then []
    else recordStatements lang (lang.argsName g.type r.field) r.arguments

def argumentTokens (lang : Language) (g : ResolverGroup) (r : Resolver) : List Token :=
  if r.arguments.isEmpty then
    match lang with
    | .typescript => [.mark '{', .mark '}']
    | .flow => [.mark '{', .mark '|', .mark '|', .mark '}']
  else [.word (lang.argsName g.type r.field)]

def signatureTokens (lang : Language) (g : ResolverGroup) (r : Resolver) : List Token :=
  [.mark '(', .word "parent", .mark ':', .word g.parent, .mark ',', .word "args", .mark ':'] ++
    argumentTokens lang g r ++
    [.mark ',', .word "ctx", .mark ':', .word "Context", .mark ',', .word "info", .mark ':',
      .word "GraphQLResolveInfo", .mark ')', .mark '=', .mark '>'] ++
    r.result.tokens lang ++ [.mark '|', .word "Promise", .mark '<'] ++ r.result.tokens lang ++
    [.mark '>']

def signatureStatements (lang : Language) (g : ResolverGroup) : List Statement :=
  g.resolvers.map fun r => .alias (lang.resolverName g.type r.field) (signatureTokens lang g r)

/-- The name of the type of all resolvers of a type, where it is declared. -/
def Language.groupName : Language → (type : String) → String
  | .typescript, _ => "Type"
  | .flow, type => type ++ "_Resolvers"

/-- An entry whose type is a single name, as a member. -/
def namedMember (name type : String) : Member := ⟨name, false, ⟨type, .one, true⟩, none⟩

def groupTypeStatements (lang : Language) (g : ResolverGroup) : List Statement :=
  recordStatements lang (lang.groupName g.type)
    (g.resolvers.map fun r => namedMember r.field (lang.resolverName g.type r.field))

def groupBody (lang : Language) (g : ResolverGroup) : List Statement :=
  defaultStatements lang g ++ argumentStatements lang g ++ signatureStatements lang g ++
    groupTypeStatements lang g

/-- The resolver types of a type, in their namespace if the language has one. -/
def groupStatements (lang : Language) (g : ResolverGroup) : List Statement :=
  match lang with
  | .typescript =>
    .opens "namespace" (Language.resolversName .typescript g.type) ::
      groupBody .typescript g ++ [.closes]
  | .flow => groupBody .flow g

theorem Line.read_const {name : String} (h : IsWord name) :
    (Line.top ("export const " ++ name ++ " = \x7b")).read = some [.opens "const" name] := by
  have hfront : IsClosed "export const " [.word "export", .word "const"] := by decide
  have hopen : IsMark " = \x7b" [.mark '=', .mark '{'] := by decide
  exact read_of_spells ((Spells.after hfront (.word h)).before hopen) (statement?_block name)

theorem read_delegate {parent field : String} (hp : IsWord parent) (hf : IsWord field)
    (indent : Nat) :
    (Line.mk indent (delegateText parent field)).read = some [.asks field parent] := by
  have hcolon : IsMark ": (parent: " [.mark ':', .mark '(', .word "parent", .mark ':'] := by decide
  have harrow : IsMark ") => parent."
      [.mark ')', .mark '=', .mark '>', .word "parent", .mark '.'] := by decide
  have htext := (((Spells.word hf).join hcolon (.word hp)).join harrow (.word hf)).before
    (by decide : IsMark "," [.mark ','])
  exact Line.read_of_spells htext (by simp [keyed])

theorem read_defaultLines (lang : Language) {g : ResolverGroup} (h : g.HasNames IsWord) :
    read (.top ("export const " ++ lang.defaultsName g.type ++ " = \x7b") ::
      g.delegated.map (fun f => .inner (delegateText g.parent f)) ++ [.top "\x7d", .blank]) =
      some (defaultStatements lang g) := by
  have hbody : read (g.delegated.map fun f => .inner (delegateText g.parent f)) =
      some (g.delegated.map (.asks · g.parent)) :=
    read_map fun f hf => read_delegate h.parent (h.delegated f hf) 1
  have hclose : (Line.top "\x7d").read = some [.closes] := rfl
  have hopen := Line.read_const (isNameClass_isWord.defaultsName lang h.type)
  exact read_block_blank hopen hbody hclose

theorem spells_argumentType (lang : Language) {g : ResolverGroup} (h : g.HasNames IsWord)
    {r : Resolver} (hr : r.HasNames IsWord) :
    Spells (match lang with
        | .typescript => TypeScript.argumentType g r
        | .flow => Flow.argumentType g r) (argumentTokens lang g r) := by
  have hname := Spells.word (isNameClass_isWord.argsName lang h.type hr.capital)
  unfold argumentTokens
  cases lang with
  | typescript =>
    show Spells (TypeScript.argumentType g r) _
    unfold TypeScript.argumentType
    split
    · exact .closed (by decide)
    · exact hname
  | flow =>
    show Spells (Flow.argumentType g r) _
    unfold Flow.argumentType
    split
    · exact .closed (by decide)
    · exact hname

theorem read_signature (lang : Language) {g : ResolverGroup} (h : g.HasNames IsWord) {r : Resolver}
    (hr : r.HasNames IsWord) {args : String} (hargs : Spells args (argumentTokens lang g r)) :
    (Line.top (r.signature lang g.type g.parent args)).read =
      some [.alias (lang.resolverName g.type r.field) (signatureTokens lang g r)] := by
  have hfront : IsClosed "export type " [.word "export", .word "type"] := by decide
  have hparent : IsMark " = (parent: "
      [.mark '=', .mark '(', .word "parent", .mark ':'] := by decide
  have hargument : IsMark ", args: " [.mark ',', .word "args", .mark ':'] := by decide
  have hcontext : IsMark ", ctx: Context, info: GraphQLResolveInfo) => "
      [.mark ',', .word "ctx", .mark ':', .word "Context", .mark ',', .word "info", .mark ':',
        .word "GraphQLResolveInfo", .mark ')', .mark '=', .mark '>'] := by decide +kernel
  have hpromise : IsMark " | Promise<" [.mark '|', .word "Promise", .mark '<'] := by decide
  have hname := isNameClass_isWord.resolverName lang h.type hr.capital
  have hresult := TypeExpr.spells lang hr.result
  have htext := (((((Spells.after hfront (.word hname)).join hparent (.word h.parent)).join
    hargument hargs).join hcontext hresult).join hpromise hresult).before
    (by decide : IsMark ">" [.mark '>'])
  refine Line.read_of_spells htext ?_
  simp [signatureTokens, isOpening]

/-- The line of an entry whose type is a single name. -/
theorem read_namedMember (lang : Language) {name type : String} (hn : IsWord name)
    (ht : IsWord type) :
    (Line.inner (name ++ ": " ++ type ++ lang.memberEnd)).read =
      some [(namedMember name type).statement lang] := by
  have hreadable : (namedMember name type).HasNames IsWord := ⟨hn, ht⟩
  have htext : (namedMember name type).text lang = name ++ ": " ++ type := by
    show name ++ "" ++ ": " ++ type = _
    rw [String.append_empty]
  have hline := Member.read_line lang hreadable 1
  rwa [htext] at hline

/-- A note to the end of the line. -/
theorem Line.code_note (type : String) : (Line.top ("// Resolvers for " ++ type)).code = [] := by
  have hslash : ("// Resolvers for " ++ type).toList =
      '/' :: '/' :: (" Resolvers for " ++ type).toList := by simp
  rw [Line.code, Line.top, hslash, codeOf]
  rfl

section

variable {g : ResolverGroup} (h : g.HasOwnNames IsWord)

include h

theorem TypeScript.read_argumentLines :
    read (g.resolvers.flatMap (argumentLines g)) = some (argumentStatements .typescript g) := by
  refine read_flatMap fun r hr => ?_
  unfold argumentLines
  split
  · rfl
  · have hname := isNameClass_isWord.argsName .typescript h.type (h.resolvers r hr).capital
    exact read_append_silent (read_interfaceLines hname (h.resolvers r hr).arguments) read_blank

theorem Flow.read_argumentLines :
    read (g.resolvers.flatMap (argumentLines g)) = some (argumentStatements .flow g) := by
  refine read_flatMap fun r hr => ?_
  unfold argumentLines
  split
  · rfl
  · have hname := isNameClass_isWord.argsName .flow h.type (h.resolvers r hr).capital
    exact read_exactLines hname (read_memberLines (h.resolvers r hr).arguments)

/-- The entries of the type of all resolvers of a type. -/
theorem read_resolverEntries (lang : Language) :
    read (g.resolvers.map fun r =>
      .inner (r.field ++ ": " ++ lang.resolverName g.type r.field ++ lang.memberEnd)) =
      some (g.resolvers.map fun r =>
        (namedMember r.field (lang.resolverName g.type r.field)).statement lang) :=
  read_map fun r hr => read_namedMember lang (h.resolvers r hr).field
    (isNameClass_isWord.resolverName lang h.type (h.resolvers r hr).capital)

theorem TypeScript.read_typeLines :
    read (typeLines g) = some (groupTypeStatements .typescript g) := by
  have hopen : (Line.top "export interface Type \x7b").read =
      some [.opens "interface" "Type"] := by decide +kernel
  have hclose : (Line.top "\x7d").read = some [.closes] := rfl
  have hbody := read_resolverEntries h .typescript
  simp only [Language.memberEnd, String.append_empty] at hbody
  rw [groupTypeStatements, recordStatements, List.map_map]
  exact read_block hopen hbody hclose

theorem Flow.read_typeLines : read (typeLines g) = some (groupTypeStatements .flow g) := by
  rw [groupTypeStatements, recordStatements, List.map_map]
  have hname := isNameClass_isWord.resolversName .flow h.type
  exact read_exactLines hname (read_resolverEntries h .flow)

end

section

variable {g : ResolverGroup} (h : g.HasNames IsWord)

include h

theorem TypeScript.read_resolverLines :
    read (g.resolvers.flatMap (resolverLines g)) = some (signatureStatements .typescript g) := by
  rw [signatureStatements, List.map_eq_flatMap]
  refine read_flatMap fun r hr => ?_
  have hargs := spells_argumentType .typescript h (h.resolvers r hr)
  have hline := read_signature .typescript h (h.resolvers r hr) hargs
  exact read_silent_append (read_docLines r.doc) ((read_singleton _).trans hline)

theorem Flow.read_resolverLines :
    read (g.resolvers.map (resolverLine g)) = some (signatureStatements .flow g) := by
  refine read_map fun r hr => ?_
  have hargs := spells_argumentType .flow h (h.resolvers r hr)
  exact read_signature .flow h (h.resolvers r hr) hargs

theorem TypeScript.read_groupLines :
    read (groupLines g) = some (groupStatements .typescript g) := by
  have hdefaults : read (defaultLines g) = some (defaultStatements .typescript g) :=
    read_defaultLines .typescript h
  have hbody := read_append (read_append_silent (read_append (read_append hdefaults
    (read_argumentLines h.own)) (read_resolverLines h)) read_blank) (read_typeLines h.own)
  have hfront : IsClosed "export namespace " [.word "export", .word "namespace"] := by decide
  have hopen := Line.read_opens hfront (isNameClass_isWord.resolversName .typescript h.type)
  have hclose : (Line.top "\x7d").read = some [.closes] := rfl
  exact read_block_blank hopen ((read_map_shift _).trans hbody) hclose

theorem Flow.read_groupLines : read (groupLines g) = some (groupStatements .flow g) := by
  have hdefaults : read (defaultLines g) = some (defaultStatements .flow g) :=
    read_defaultLines .flow h
  have hnote : read [Line.top ("// Resolvers for " ++ g.type)] = some [] := by
    rw [read_singleton, Line.read, Line.code_note]
  have hfront := read_silent_append hnote hdefaults
  rw [List.singleton_append] at hfront
  exact read_append (read_append_silent (read_append (read_append hfront
    (read_argumentLines h.own)) (read_resolverLines h)) read_blank) (read_typeLines h.own)

end

/-! ## All resolvers -/

def resolversTypeTokens : Language → (type : String) → List Token
  | .typescript, type => [.word (type ++ "Resolvers"), .mark '.', .word "Type"]
  | .flow, type => [.word (type ++ "_Resolvers")]

def indexStatements (lang : Language) (groups : List ResolverGroup) : List Statement :=
  .opens lang.recordKeyword "Resolvers" ::
    groups.map (fun g => .entry g.type false (resolversTypeTokens lang g.type ++ lang.endTokens)) ++
    [.closes]

theorem spells_resolversType (lang : Language) {type : String} (h : IsWord type) :
    Spells (lang.resolversType type) (resolversTypeTokens lang type) := by
  cases lang with
  | typescript =>
    have hsplit : type ++ "Resolvers.Type" = type ++ "Resolvers" ++ "." ++ "Type" := by
      rw [String.append_assoc, String.append_assoc]
      rfl
    have hname : IsWord (type ++ "Resolvers") := h.append (by decide)
    have hdot : IsMark "." [.mark '.'] := by decide
    have hjoin := (Spells.word hname).join hdot (.word (by decide : IsWord "Type"))
    rw [← hsplit] at hjoin
    exact hjoin
  | flow => exact .word (h.append (by decide))

theorem read_indexEntry (lang : Language) {type : String} (h : IsWord type) (indent : Nat) :
    (Line.mk indent (type ++ ": " ++ lang.resolversType type ++ lang.memberEnd)).read =
      some [.entry type false (resolversTypeTokens lang type ++ lang.endTokens)] := by
  have hcolon : IsMark ": " [.mark ':'] := by decide
  have htext := ((Spells.word h).join hcolon (spells_resolversType lang h)).memberEnd lang
  refine Line.read_of_spells htext ?_
  cases lang <;> simp [keyed, resolversTypeTokens, Language.endTokens]

def indexLines : Language → List ResolverGroup → List Line
  | .typescript, groups => TypeScript.indexLines groups
  | .flow, groups => Flow.indexLines groups

theorem read_indexLines (lang : Language) {groups : List ResolverGroup}
    (h : ∀ g ∈ groups, IsWord g.type) :
    read (indexLines lang groups) = some (indexStatements lang groups) := by
  have hentries : ∀ lang : Language, read (groups.map fun g =>
      .inner (g.type ++ ": " ++ lang.resolversType g.type ++ lang.memberEnd)) =
      some (groups.map fun g =>
        .entry g.type false (resolversTypeTokens lang g.type ++ lang.endTokens)) :=
    fun lang => read_map fun g hg => read_indexEntry lang (h g hg) 1
  cases lang with
  | typescript =>
    have hopen : (Line.top "export interface Resolvers \x7b").read =
        some [.opens "interface" "Resolvers"] := by decide +kernel
    have hclose : (Line.top "\x7d").read = some [.closes] := rfl
    have hbody := hentries .typescript
    simp only [Language.memberEnd, String.append_empty] at hbody
    exact read_block_blank hopen hbody hclose
  | flow => exact Flow.read_exactLines (by decide) (hentries .flow)

/-! ## The whole file -/

def TypesFile.lines : Language → TypesFile → List Line
  | .typescript, f => TypeScript.lines f
  | .flow, f => Flow.lines f

theorem TypesFile.render_eq (lang : Language) (f : TypesFile) :
    f.render lang = renderLines (f.lines lang) := by
  cases lang <;> rfl

def importStatements (f : TypesFile) : List Statement :=
  [.imports [("GraphQLResolveInfo", "GraphQLResolveInfo")] (quotedPath "graphql"),
    .imports [("Context", "Context")] (quotedPath f.contextPath)] ++
  f.imports.map fun g => .imports g.names (quotedPath g.specifier)

/-- The models that a types file exports again. -/
def reexportStatements (f : TypesFile) : List Statement :=
  if f.models.isEmpty then [] else [.reexports f.models]

def Choice.statement (lang : Language) (c : Choice) : Statement := .alias c.name (c.tokens lang)

def TypesFile.statements (lang : Language) (f : TypesFile) : List Statement :=
  importStatements f ++ reexportStatements f ++ f.enums.map (Choice.statement lang) ++
    f.unions.map (Choice.statement lang) ++
    f.records.flatMap (fun r => recordStatements lang r.name r.members) ++
    f.groups.flatMap (groupStatements lang) ++ indexStatements lang f.groups

/-- An import of a single name. -/
theorem read_importLine_single (lang : Language) {name : String} (h : IsWord name)
    (path : String) :
    (importLine (importKeyword lang) [name] path).read =
      some [.imports [(name, name)] (quotedPath path)] := by
  have hitem : [(name, name)].map importItem = [name] := by simp [importItem]
  rw [← hitem]
  exact read_importLine lang path (by simp [h])

theorem read_importLines (lang : Language) {f : TypesFile} (h : f.HasNames IsWord) :
    read (importLines (importKeyword lang) f) = some (importStatements f) := by
  have hinfo := read_importLine_single lang (by decide : IsWord "GraphQLResolveInfo") "graphql"
  have hcontext := read_importLine_single lang (by decide : IsWord "Context") f.contextPath
  have hfixed := read_cons hinfo (read_cons hcontext (show read [] = some [] from rfl))
  have hmodels : read (f.imports.map fun g =>
      importLine (importKeyword lang) (g.names.map importItem) g.specifier) =
      some (f.imports.map fun g => .imports g.names (quotedPath g.specifier)) :=
    read_map fun g hg => read_importLine lang g.specifier (h.imports g hg)
  exact read_append_silent (read_append hfixed hmodels) read_blank

theorem read_reexportLines {f : TypesFile} (h : f.HasNames IsWord) :
    read (reexportLines f) = some (reexportStatements f) := by
  have hnames : ∀ n ∈ f.models, IsWord n := by
    intro n hn
    obtain ⟨g, hg, hn⟩ := List.mem_flatMap.1 hn
    obtain ⟨i, hi, rfl⟩ := List.mem_map.1 hn
    exact (h.imports g hg i hi).2
  unfold reexportLines reexportStatements
  cases hmodels : f.models with
  | nil => rfl
  | cons n r =>
    rw [hmodels] at hnames
    exact read_cons (read_reexportLine hnames) read_blank

theorem read_choices (lang : Language) {cs : List Choice} (h : ∀ c ∈ cs, c.HasNames IsWord) :
    read (cs.flatMap (·.lines lang)) = some (cs.map (Choice.statement lang)) := by
  rw [List.map_eq_flatMap]
  exact read_flatMap fun c hc => Choice.read_lines lang (h c hc)

/-- What a types file says is read back from its lines. -/
theorem TypesFile.read_lines (lang : Language) {f : TypesFile} (h : f.HasNames IsWord) :
    read (f.lines lang) = some (f.statements lang) := by
  have himports := read_importLines lang h
  have hreexports := read_reexportLines h
  have henums := read_choices lang h.enums
  have hunions := read_choices lang h.unions
  have hrecords : read (f.records.flatMap (RecordType.lines lang)) =
      some (f.records.flatMap fun r => recordStatements lang r.name r.members) :=
    read_flatMap fun r hr => RecordType.read_lines lang (h.records r hr)
  have hindex := read_indexLines lang fun g hg => (h.groups g hg).type
  have htail : ∀ {groupLines : ResolverGroup → List Line},
      (∀ g ∈ f.groups, read (groupLines g) = some (groupStatements lang g)) →
      read (importLines (importKeyword lang) f ++ reexportLines f ++
        f.enums.flatMap (·.lines lang) ++ f.unions.flatMap (·.lines lang) ++
        f.records.flatMap (RecordType.lines lang) ++ f.groups.flatMap groupLines ++
        Code.indexLines lang f.groups) = some (f.statements lang) := fun hgroups =>
    read_append (read_append (read_append (read_append (read_append (read_append himports
      hreexports) henums) hunions) hrecords) (read_flatMap hgroups)) hindex
  cases lang with
  | typescript =>
    have hnote : read [.top ("// " ++ generatedNote), .blank] = some [] := by decide +kernel
    have hall := read_silent_append hnote
      (htail fun g hg => TypeScript.read_groupLines (h.groups g hg))
    simp only [← List.append_assoc] at hall
    exact hall
  | flow =>
    have hnote : read [.top "/* @flow */", .top ("// " ++ generatedNote), .blank] = some [] := by
      decide +kernel
    have hall := read_silent_append hnote
      (htail fun g hg => Flow.read_groupLines (h.groups g hg))
    simp only [← List.append_assoc] at hall
    exact hall

/-- The types file of a schema is read back if the names of its models are words. -/
theorem TypesFile.read_ofPlan (lang : Language) (path : String) {s : Schema} (hs : s.IsNamed)
    {bindings : Model.Bindings} (hb : ∀ b ∈ bindings, IsWord b.2.name) :
    read ((TypesFile.ofPlan lang path (.of s bindings)).lines lang) =
      some ((TypesFile.ofPlan lang path (.of s bindings)).statements lang) :=
  read_lines lang (ofPlan_hasNames isNameClass_isWord lang path hs hb)

end ResolverKit.Code
