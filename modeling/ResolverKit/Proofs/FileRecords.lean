import ResolverKit.Proofs.FileBlocks
import ResolverKit.Proofs.RecordReading

/-!
# The records of a types file

Which records a types file declares, in both languages: one for each piece of data, one for each
list of arguments, and one with all resolvers of each type and of all types.  Only the names of
models may be anything, so the file need not be readable as a whole; but all of it that declares a
record is.

    f.HasOwnNames IsWord → records lang [] (understood (f.lines lang)) = f.readings lang
                                                                       (TypesFile.records_lines)
-/

namespace ResolverKit.Code

/-! ## Records -/

def Member.reading (m : Member) : ReadMember := ⟨m.name, m.optional, some m.type.ref⟩

theorem dropComma_append_endTokens (lang : Language) {ts : List Token}
    (h : ts.getLast? ≠ some (.mark ',')) : dropComma (ts ++ lang.endTokens) = ts := by
  cases lang with
  | typescript => simp [dropComma, Language.endTokens, h]
  | flow => simp [dropComma, Language.endTokens]

theorem TypeExpr.getLast?_tokens_ne_comma (lang : Language) (t : TypeExpr) :
    (t.tokens lang).getLast? ≠ some (.mark ',') := by
  obtain ⟨base, _ | (_ | _), _ | _⟩ := t <;> cases lang <;>
    simp [TypeExpr.tokens, Language.optionalTokens, Language.nullableTokens]

theorem Member.member?_statement (lang : Language) (m : Member) :
    (m.statement lang).member? lang = some m.reading := by
  rw [Member.statement, Statement.member?,
    dropComma_append_endTokens lang (TypeExpr.getLast?_tokens_ne_comma lang m.type),
    readType?_tokens]
  rfl

theorem declares_recordStatements (lang : Language) (name : String) (ms : List Member) :
    Declares lang (recordStatements lang name ms)
      fun blocks => [⟨blocks, name, ms.map Member.reading⟩] := by
  have hinner : ∀ s ∈ ms.map (Member.statement lang), s.isInner = true := by
    intro s hs
    obtain ⟨m, -, rfl⟩ := List.mem_map.1 hs
    rfl
  have hmembers : (ms.map (Member.statement lang)).filterMap (Statement.member? lang) =
      ms.map Member.reading := by
    simp [List.filterMap_map, Member.member?_statement]
  have hrecord := @declares_record lang _ name hinner
  rwa [hmembers] at hrecord

/-! ## Resolvers -/

def argumentReadings (lang : Language) (g : ResolverGroup) (blocks : List String) :
    List ReadRecord :=
  g.resolvers.flatMap fun r =>
    if r.arguments.isEmpty then []
    else [⟨blocks, lang.argsName g.type r.field, r.arguments.map Member.reading⟩]

/-- The type of all resolvers of a type, read back. -/
def groupReading (lang : Language) (g : ResolverGroup) (blocks : List String) : ReadRecord :=
  ⟨blocks, lang.groupName g.type, g.resolvers.map fun r =>
    (namedMember r.field (lang.resolverName g.type r.field)).reading⟩

def groupReadings (lang : Language) (g : ResolverGroup) (blocks : List String) : List ReadRecord :=
  argumentReadings lang g blocks ++ [groupReading lang g blocks]

theorem declares_argumentStatements (lang : Language) (g : ResolverGroup) :
    Declares lang (argumentStatements lang g) (argumentReadings lang g) := by
  refine .flatMap fun r _ => ?_
  split
  · exact .of_isInner (by simp)
  · exact declares_recordStatements lang _ _

theorem declares_groupTypeStatements (lang : Language) (g : ResolverGroup) :
    Declares lang (groupTypeStatements lang g) fun blocks => [groupReading lang g blocks] := by
  have hrecord := declares_recordStatements lang (lang.groupName g.type)
    (g.resolvers.map fun r => namedMember r.field (lang.resolverName g.type r.field))
  rw [List.map_map] at hrecord
  exact hrecord

/-- Lines between the line that opens a block and the one that closes it. -/
theorem declares_blockLines {lang : Language} {keyword name : String} {opening : Line}
    {body : List Line} {f : List String → List ReadRecord}
    (hopening : opening.read = some [.opens keyword name]) (hkeyword : keyword ≠ lang.recordKeyword)
    (hbody : Declares lang (understood body) f) :
    Declares lang (understood (opening :: body ++ [.top "\x7d", .blank]))
      fun blocks => f (blocks ++ [name]) := by
  have hfirst := understood_of_read ((read_singleton _).trans hopening)
  have hlast : understood [.top "\x7d", .blank] = [.closes] := by decide
  rw [← List.singleton_append, understood_append, understood_append, hfirst, hlast]
  exact hbody.block hkeyword name

/-- The parts of what is declared for the resolvers of a type. -/
theorem declares_groupParts {lang : Language} {g : ResolverGroup}
    {defaults arguments signatures type : List Line}
    (hdefaults : Declares lang (understood defaults) fun _ => [])
    (harguments : read arguments = some (argumentStatements lang g))
    (hsignatures : ∀ l ∈ signatures, l.IsInner)
    (htype : read type = some (groupTypeStatements lang g)) :
    Declares lang (understood (defaults ++ arguments ++ signatures ++ [.blank] ++ type))
      (groupReadings lang g) := by
  simp only [understood_append, understood_blank, understood_of_read harguments,
    understood_of_read htype, List.append_nil]
  exact ((hdefaults.append (declares_argumentStatements lang g)).append_inner
    (isInner_of_mem_understood hsignatures)).append (declares_groupTypeStatements lang g)

section

variable {g : ResolverGroup} (h : g.HasOwnNames IsWord)

include h

theorem declares_defaultLines (lang : Language) :
    Declares lang (understood (.top ("export const " ++ lang.defaultsName g.type ++ " = \x7b") ::
      g.delegated.map (fun f => .inner (delegateText g.parent f)) ++ [.top "\x7d", .blank]))
      fun _ => [] := by
  have hbody : ∀ s ∈ understood (g.delegated.map fun f => .inner (delegateText g.parent f)),
      s.isInner = true := by
    refine isInner_of_mem_understood fun l hl => ?_
    obtain ⟨f, hf, rfl⟩ := List.mem_map.1 hl
    exact isInner_delegate (h.delegated f hf) g.parent 1
  have hopening := Line.read_const (isNameClass_isWord.defaultsName lang h.type)
  have hkeyword : "const" ≠ lang.recordKeyword := by cases lang <;> decide
  exact declares_blockLines hopening hkeyword (.of_isInner hbody)

theorem TypeScript.declares_groupLines :
    Declares .typescript (understood (groupLines g))
      fun blocks => groupReadings .typescript g (blocks ++ [g.type ++ "Resolvers"]) := by
  have hsignatures : ∀ l ∈ g.resolvers.flatMap (resolverLines g), l.IsInner := by
    intro l hl
    obtain ⟨r, hr, hl⟩ := List.mem_flatMap.1 hl
    rcases List.mem_append.1 hl with hl | hl
    · exact isInner_of_silent (read_docLines r.doc) l hl
    · obtain rfl := List.mem_singleton.1 hl
      exact isInner_signature .typescript
        (isNameClass_isWord.resolverName .typescript h.type (h.resolvers r hr).capital) g.parent _
  have hdefaults : Declares .typescript (understood (defaultLines g)) fun _ => [] :=
    declares_defaultLines h .typescript
  have hbody := declares_groupParts hdefaults (read_argumentLines h) hsignatures
    (read_typeLines h)
  have hfront : IsClosed "export namespace " [.word "export", .word "namespace"] := by decide
  have hopening := Line.read_opens hfront (isNameClass_isWord.resolversName .typescript h.type)
  rw [← understood_map_shift] at hbody
  exact declares_blockLines hopening (by decide) hbody

theorem Flow.declares_groupLines :
    Declares .flow (understood (groupLines g)) (groupReadings .flow g) := by
  have hsignatures : ∀ l ∈ g.resolvers.map (resolverLine g), l.IsInner := by
    intro l hl
    obtain ⟨r, hr, rfl⟩ := List.mem_map.1 hl
    exact isInner_signature .flow
      (isNameClass_isWord.resolverName .flow h.type (h.resolvers r hr).capital) g.parent _
  have hdefaults : Declares .flow (understood (defaultLines g)) fun _ => [] :=
    declares_defaultLines h .flow
  have hbody := declares_groupParts hdefaults (read_argumentLines h) hsignatures
    (read_typeLines h)
  have hnote : understood [.top ("// Resolvers for " ++ g.type)] = [] := by
    simp [understood, Line.code_note, statement?]
  rwa [← understood_append_of_silent hnote] at hbody

end

/-! ## The whole file -/

def indexReading (lang : Language) (types : List String) : ReadRecord :=
  ⟨[], "Resolvers", types.map fun type =>
    ⟨type, false, lang.readType? (resolversTypeTokens lang type)⟩⟩

/-- The records of a types file, read back: the data, what belongs to the resolvers of each type,
and the type of all resolvers. -/
def TypesFile.readings (lang : Language) (f : TypesFile) : List ReadRecord :=
  f.records.map (fun r => ⟨[], r.name, r.members.map Member.reading⟩) ++
    f.groups.flatMap (fun g => groupReadings lang g (lang.groupBlocks g.type)) ++
    [indexReading lang (f.groups.map (·.type))]

theorem declares_indexStatements (lang : Language) (groups : List ResolverGroup) :
    Declares lang (indexStatements lang groups)
      fun blocks => [{ indexReading lang (groups.map (·.type)) with blocks }] := by
  have hinner : ∀ s ∈ groups.map (fun g =>
      Statement.entry g.type false (resolversTypeTokens lang g.type ++ lang.endTokens)),
      s.isInner = true := by
    intro s hs
    obtain ⟨g, -, rfl⟩ := List.mem_map.1 hs
    rfl
  have hentry : ∀ type, dropComma (resolversTypeTokens lang type ++ lang.endTokens) =
      resolversTypeTokens lang type := fun type =>
    dropComma_append_endTokens lang (by cases lang <;> simp [resolversTypeTokens])
  have hmembers : (groups.map (fun g => Statement.entry g.type false
      (resolversTypeTokens lang g.type ++ lang.endTokens))).filterMap (Statement.member? lang) =
        (indexReading lang (groups.map (·.type))).members := by
    simp [List.filterMap_map, Function.comp_def, Statement.member?, hentry, indexReading]
  have hrecord := @declares_record lang _ "Resolvers" hinner
  rwa [hmembers] at hrecord

/-- What stands in front of the records declares none. -/
theorem isInner_head (lang : Language) {f : TypesFile} (h : f.HasOwnNames IsWord) :
    ∀ s ∈ understood (importLines (importKeyword lang) f ++ reexportLines f ++
      f.enums.flatMap (·.lines lang) ++ f.unions.flatMap (·.lines lang)), s.isInner = true := by
  have hchoices : ∀ {cs : List Choice}, (∀ c ∈ cs, c.HasNames IsWord) →
      ∀ s ∈ understood (cs.flatMap (·.lines lang)), s.isInner = true := by
    intro cs hcs s hs
    rw [understood_of_read (read_choices lang hcs)] at hs
    obtain ⟨c, -, rfl⟩ := List.mem_map.1 hs
    rfl
  have himports : ∀ l ∈ importLines (importKeyword lang) f, l.IsInner := by
    intro l hl
    simp only [importLines, List.mem_append, List.mem_cons, List.mem_map, List.not_mem_nil,
      or_false] at hl
    rcases hl with ((rfl | rfl) | ⟨g, -, rfl⟩) | rfl
    · exact isInner_importLine lang _ _
    · exact isInner_importLine lang _ _
    · exact isInner_importLine lang _ _
    · exact isInner_of_silent read_blank _ (by simp)
  have hreexports : ∀ l ∈ reexportLines f, l.IsInner := by
    intro l hl
    unfold reexportLines at hl
    split at hl
    · cases hl
    · rcases List.mem_cons.1 hl with rfl | hl
      · exact isInner_reexportLine _
      · exact isInner_of_silent read_blank l hl
  intro s hs
  simp only [understood_append, List.mem_append] at hs
  rcases hs with ((hs | hs) | hs) | hs
  · exact isInner_of_mem_understood himports s hs
  · exact isInner_of_mem_understood hreexports s hs
  · exact hchoices h.enums s hs
  · exact hchoices h.unions s hs

/-- The records of all lines behind the note. -/
theorem TypesFile.records_parts (lang : Language) {f : TypesFile} (h : f.HasOwnNames IsWord)
    {groupLines : ResolverGroup → List Line}
    {readings : ResolverGroup → List String → List ReadRecord}
    (hgroups : ∀ g ∈ f.groups, Declares lang (understood (groupLines g)) (readings g))
    (hreadings : ∀ g, readings g [] = groupReadings lang g (lang.groupBlocks g.type)) :
    Code.records lang [] (understood (importLines (importKeyword lang) f ++ reexportLines f ++
      f.enums.flatMap (·.lines lang) ++ f.unions.flatMap (·.lines lang) ++
      f.records.flatMap (RecordType.lines lang) ++ f.groups.flatMap groupLines ++
      Code.indexLines lang f.groups)) = f.readings lang := by
  have hrecords := understood_of_read (read_flatMap fun r hr =>
    RecordType.read_lines lang (h.records r hr))
  have hindex := understood_of_read (read_indexLines lang fun g hg => (h.groups g hg).type)
  have hdata : Declares lang
      (f.records.flatMap fun r => recordStatements lang r.name r.members) _ :=
    .flatMap fun r _ => declares_recordStatements lang r.name r.members
  have hall := ((hdata.inner_append (isInner_head lang h)).append (.flatMap hgroups)).append
    (declares_indexStatements lang f.groups) [] []
  simp only [List.append_nil, hreadings] at hall
  rw [understood_append, understood_append, understood_append, understood_flatMap f.groups,
    hrecords, hindex, hall, TypesFile.readings]
  simp [Code.records, indexReading, List.map_eq_flatMap]

/-- The records of a types file are read back from its lines. -/
theorem TypesFile.records_lines (lang : Language) {f : TypesFile} (h : f.HasOwnNames IsWord) :
    Code.records lang [] (understood (f.lines lang)) = f.readings lang := by
  cases lang with
  | typescript =>
    have hnote : understood [.top ("// " ++ generatedNote), .blank] = [] := by decide +kernel
    have hall := records_parts .typescript h
      (fun g hg => TypeScript.declares_groupLines (h.groups g hg)) fun _ => rfl
    rw [← understood_append_of_silent hnote] at hall
    simp only [← List.append_assoc] at hall
    exact hall
  | flow =>
    have hnote : understood [.top "/* @flow */", .top ("// " ++ generatedNote), .blank] = [] := by
      decide +kernel
    have hall := records_parts .flow h
      (fun g hg => Flow.declares_groupLines (h.groups g hg)) fun _ => rfl
    rw [← understood_append_of_silent hnote] at hall
    simp only [← List.append_assoc] at hall
    exact hall

end ResolverKit.Code
