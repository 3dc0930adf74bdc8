import ResolverKit.Proofs.FileBlocks
import ResolverKit.Proofs.PlanNames

/-!
# References of a types file

Every type that a types file mentions is one that its language has, one that it imports, or one
that it declares (`references_resolve`).  A mentioned name is looked up from the blocks where it
stands outwards; a name with a dot is looked up inside the namespace in front of the dot.

The proof has two layers.  `resolve_of_isComplete` goes through the statements of a file and needs
to know of the names in it only that the file is complete; `ofPlan_isComplete` shows that the file
of an accepted schema is.
-/

namespace ResolverKit.Code

/-! ## Names that are mentioned -/

/-- The types that these tokens mention, each with the namespace in front of it if it has one.  A
word in front of a colon is the name of a parameter. -/
def typeNames : List Token → List (List String)
  | .word outer :: .mark '.' :: .word name :: r => [outer, name] :: typeNames r
  | .word _ :: .mark ':' :: r => typeNames r
  | .word name :: r => [name] :: typeNames r
  | _ :: r => typeNames r
  | [] => []

/-- The types that a statement mentions. -/
def Statement.references : Statement → List (List String)
  | .reexports names => names.map ([·])
  | .alias _ type => typeNames type
  | .entry _ _ type => typeNames type
  | .constant _ type => typeNames type
  | .asks _ parent => [[parent]]
  | _ => []

def importedNames (ps : List Placed) : List String :=
  ps.flatMap fun
    | (_, .imports items _) => items.map (·.2)
    | _ => []

/-- The types that are declared, each with the blocks around it. -/
def declaredTypes (ps : List Placed) : List (List String) :=
  ps.filterMap fun
    | (blocks, .alias name _) => some (blocks ++ [name])
    | (blocks, .opens "interface" name) => some (blocks ++ [name])
    | (blocks, .opens "type" name) => some (blocks ++ [name])
    | _ => none

def builtinTypes : Language → List String
  | .typescript =>
    ["string", "number", "boolean", "any", "null", "undefined", "void", "never", "Array",
      "Promise"]
  | .flow =>
    ["string", "number", "boolean", "any", "null", "void", "empty", "Array", "Promise"]

/-- The name `q`, which may have a namespace in front, means something in these blocks. -/
def Resolves (lang : Language) (ps : List Placed) (blocks q : List String) : Prop :=
  (∃ name, q = [name] ∧ (name ∈ builtinTypes lang ∨ name ∈ importedNames ps)) ∨
    ∃ outer, outer <+: blocks ∧ outer ++ q ∈ declaredTypes ps

/-- Every type that the statements mention means something in the file. -/
def AllResolve (lang : Language) (ps : List Placed) (blocks : List String)
    (ss : List Statement) : Prop :=
  ∀ p ∈ place blocks ss, ∀ q ∈ p.2.references, Resolves lang ps p.1 q

/-! ## Names in types -/

/-- No name goes on at the front of these tokens. -/
def Breaks (ts : List Token) : Prop := ∀ t, ts.head? = some t → ∃ c, t = .mark c ∧ c ≠ '.' ∧ c ≠ ':'

theorem typeNames_append {us : List Token} (h : Breaks us) (ts : List Token) :
    typeNames (ts ++ us) = typeNames ts ++ typeNames us := by
  have hlast : ∀ name, typeNames (.word name :: us) = [name] :: typeNames us := by
    intro name
    cases us with
    | nil => rfl
    | cons t r =>
      obtain ⟨c, rfl, hdot, hcolon⟩ := h t rfl
      rw [typeNames]
      · simp [hdot]
      · simp [hcolon]
  fun_induction typeNames ts with
  | case1 outer name r ih => simp [typeNames, ih]
  | case2 name r ih => simp [typeNames, ih]
  | case3 name r hdot hcolon ih =>
    rw [List.cons_append, typeNames, ih]
    · rfl
    · intro name' r' he
      rcases r with _ | ⟨t, _ | ⟨t', r⟩⟩
      · obtain ⟨c, hc, hdot, -⟩ := h (.mark '.') (by simp_all)
        exact hdot (by simpa using hc.symm)
      · obtain ⟨c, hc, -, -⟩ := h (.word name') (by simp_all)
        cases hc
      · simp only [List.cons_append, List.cons.injEq] at he
        exact hdot name' r (by rw [he.1, he.2.1])
    · intro r' he
      rcases r with _ | ⟨t, r⟩
      · obtain ⟨c, hc, -, hcolon⟩ := h (.mark ':') (by simp_all)
        exact hcolon (by simpa using hc.symm)
      · simp only [List.cons_append, List.cons.injEq] at he
        exact hcolon r (by rw [he.1])
  | case4 t r _ _ hword ih =>
    cases t with
    | word name => exact absurd rfl (hword name)
    | quoted s => simp [typeNames, ih]
    | mark c => simp [typeNames, ih]
  | case5 => rfl

theorem breaks_mark {c : Char} (hdot : c ≠ '.') (hcolon : c ≠ ':') (r : List Token) :
    Breaks (.mark c :: r) := by
  intro t ht
  obtain rfl : .mark c = t := by simpa using ht
  exact ⟨c, rfl, hdot, hcolon⟩

theorem breaks_endTokens (lang : Language) : Breaks lang.endTokens := by
  cases lang with
  | typescript => intro t ht; cases ht
  | flow => exact breaks_mark (by decide) (by decide) []

theorem eq_of_mem_typeNames_type {lang : Language} {t : TypeExpr} {q : List String}
    (h : q ∈ typeNames (t.tokens lang)) : q = [t.base] ∨ q = ["Array"] ∨ q = ["null"] := by
  obtain ⟨base, _ | (_ | _), _ | _⟩ := t <;> cases lang <;>
    simp [TypeExpr.tokens, Language.optionalTokens, Language.nullableTokens, typeNames] at h <;>
    rcases h with rfl | rfl | rfl <;> simp

theorem base_mem_typeNames_type (lang : Language) (t : TypeExpr) :
    [t.base] ∈ typeNames (t.tokens lang) := by
  obtain ⟨base, _ | (_ | _), _ | _⟩ := t <;> cases lang <;>
    simp [TypeExpr.tokens, Language.optionalTokens, Language.nullableTokens, typeNames]

/-- What a resolver mentions: its parent, its arguments, the context, its result. -/
theorem typeNames_signature (lang : Language) (g : ResolverGroup) (r : Resolver) :
    typeNames (signatureTokens lang g r) =
      [g.parent] :: typeNames (argumentTokens lang g r) ++ [["Context"], ["GraphQLResolveInfo"]] ++
        typeNames (r.result.tokens lang) ++ [["Promise"]] ++ typeNames (r.result.tokens lang) := by
  have hcomma := fun ts us => @typeNames_append (.mark ',' :: us)
    (breaks_mark (by decide) (by decide) us) ts
  have hbar := fun ts us => @typeNames_append (.mark '|' :: us)
    (breaks_mark (by decide) (by decide) us) ts
  have hend := fun ts => @typeNames_append [.mark '>'] (breaks_mark (by decide) (by decide) []) ts
  simp [signatureTokens, typeNames, hcomma, hbar, hend]

theorem eq_of_mem_typeNames_arguments {lang : Language} {g : ResolverGroup} {r : Resolver}
    {q : List String} (h : q ∈ typeNames (argumentTokens lang g r)) :
    r.arguments.isEmpty = false ∧ q = [lang.argsName g.type r.field] := by
  unfold argumentTokens at h
  split_ifs at h with hempty
  · cases lang <;> simp [typeNames] at h
  · exact ⟨by simpa using hempty, by simpa [typeNames] using h⟩

/-! ## Rules -/

namespace AllResolve

variable {lang : Language} {ps : List Placed} {blocks : List String}

theorem nil : AllResolve lang ps blocks [] := by
  intro p hp
  cases hp

theorem append {a b : List Statement} (hclosed : Closes a) (ha : AllResolve lang ps blocks a)
    (hb : AllResolve lang ps blocks b) : AllResolve lang ps blocks (a ++ b) := by
  intro p hp
  rw [hclosed.place_append] at hp
  rcases List.mem_append.1 hp with hp | hp
  · exact ha p hp
  · exact hb p hp

theorem flatMap {α : Type} {xs : List α} {f : α → List Statement}
    (hclosed : ∀ x ∈ xs, Closes (f x)) (h : ∀ x ∈ xs, AllResolve lang ps blocks (f x)) :
    AllResolve lang ps blocks (xs.flatMap f) := by
  intro p hp
  rw [Closes.place_flatMap hclosed] at hp
  obtain ⟨x, hx, hp⟩ := List.mem_flatMap.1 hp
  exact h x hx p hp

theorem flat {ss : List Statement} (hflat : ∀ s ∈ ss, s.IsFlat)
    (h : ∀ s ∈ ss, ∀ q ∈ s.references, Resolves lang ps blocks q) :
    AllResolve lang ps blocks ss := by
  intro p hp
  rw [place_of_isFlat hflat] at hp
  obtain ⟨s, hs, rfl⟩ := List.mem_map.1 hp
  exact h s hs

theorem block {keyword name : String} {ss : List Statement} (hclosed : Closes ss)
    (h : AllResolve lang ps (blocks ++ [name]) ss) :
    AllResolve lang ps blocks (.opens keyword name :: ss ++ [.closes]) := by
  intro p hp q hq
  rw [place_block hclosed] at hp
  simp only [List.mem_append, List.mem_cons, List.not_mem_nil, or_false] at hp
  rcases hp with (rfl | hp) | rfl
  · cases hq
  · exact h p hp q hq
  · cases hq

end AllResolve

/-! ## Files that are complete -/

/-- The types that a types file declares outside all blocks. -/
def TypesFile.declared (f : TypesFile) : List String :=
  f.enums.map (·.name) ++ f.unions.map (·.name) ++ f.records.map (·.name)

/-- The type is built in, a model, or declared. -/
def TypesFile.Knows (lang : Language) (f : TypesFile) (type : String) : Prop :=
  type ∈ builtinTypes lang ∨ type ∈ f.models ∨ type ∈ f.declared

/-- The types that a types file is put together from are known in it. -/
structure TypesFile.IsComplete (lang : Language) (f : TypesFile) : Prop where
  enums : ∀ e ∈ f.enums, ∀ o ∈ e.options, ∃ v, IsWord v ∧ o = "'" ++ v ++ "'"
  unions : ∀ u ∈ f.unions, ∀ o ∈ u.options, IsWord o ∧ f.Knows lang o
  records : ∀ r ∈ f.records, ∀ m ∈ r.members, f.Knows lang m.type.base
  parents : ∀ g ∈ f.groups, f.Knows lang g.parent
  arguments : ∀ g ∈ f.groups, ∀ r ∈ g.resolvers, ∀ m ∈ r.arguments, f.Knows lang m.type.base
  results : ∀ g ∈ f.groups, ∀ r ∈ g.resolvers, f.Knows lang r.result.base

section

variable {lang : Language} {f : TypesFile}

theorem mem_importedNames {ps : List Placed} {blocks : List String}
    {items : List (String × String)} {path : String} (h : (blocks, .imports items path) ∈ ps)
    {i : String × String} (hi : i ∈ items) : i.2 ∈ importedNames ps :=
  List.mem_flatMap.2 ⟨_, h, List.mem_map_of_mem hi⟩

theorem mem_declaredTypes_alias {ps : List Placed} {blocks : List String} {name : String}
    {type : List Token} (h : (blocks, .alias name type) ∈ ps) :
    blocks ++ [name] ∈ declaredTypes ps :=
  List.mem_filterMap.2 ⟨_, h, rfl⟩

theorem mem_declaredTypes_record {ps : List Placed} {blocks : List String} {name : String}
    (h : (blocks, .opens lang.recordKeyword name) ∈ ps) : blocks ++ [name] ∈ declaredTypes ps := by
  cases lang <;> exact List.mem_filterMap.2 ⟨_, h, rfl⟩

/-- What stands outside all blocks in front of the records stands in the file. -/
theorem mem_place_of_mem_head {s : Statement} (h : s ∈ headStatements lang f) :
    ([], s) ∈ place [] (f.statements lang) := by
  rw [TypesFile.place_statements]
  simp [h]

theorem mem_place_of_mem_records {r : RecordType} (h : r ∈ f.records) {p : Placed}
    (hp : p ∈ place [] (recordStatements lang r.name r.members)) :
    p ∈ place [] (f.statements lang) := by
  rw [TypesFile.place_statements]
  simp only [List.mem_append, List.mem_flatMap]
  exact .inl (.inl (.inr ⟨r, h, hp⟩))

theorem mem_place_of_mem_groups {g : ResolverGroup} (h : g ∈ f.groups) {p : Placed}
    (hp : p ∈ place (lang.groupBlocks g.type) (groupBody lang g)) :
    p ∈ place [] (f.statements lang) := by
  rw [TypesFile.place_statements]
  simp only [List.mem_append, List.mem_flatMap]
  exact .inl (.inr ⟨g, h, mem_place_groupStatements hp⟩)

theorem mem_declaredTypes_of_mem_declared {type : String} (h : type ∈ f.declared) :
    [type] ∈ declaredTypes (place [] (f.statements lang)) := by
  have hchoice : ∀ c : Choice, c.statement lang ∈ headStatements lang f →
      [c.name] ∈ declaredTypes (place [] (f.statements lang)) := fun c hc =>
    mem_declaredTypes_alias (mem_place_of_mem_head hc)
  simp only [TypesFile.declared, List.mem_append, List.mem_map] at h
  rcases h with (⟨e, he, rfl⟩ | ⟨u, hu, rfl⟩) | ⟨r, hr, rfl⟩
  · apply hchoice
    simp only [headStatements, List.mem_append, List.mem_map]
    exact .inl (.inr ⟨e, he, rfl⟩)
  · apply hchoice
    simp only [headStatements, List.mem_append, List.mem_map]
    exact .inr ⟨u, hu, rfl⟩
  · have hopens : ([], .opens lang.recordKeyword r.name) ∈
        place [] (recordStatements lang r.name r.members) := by
      rw [place_recordStatements]
      simp
    exact mem_declaredTypes_record (mem_place_of_mem_records hr hopens)

theorem mem_declaredTypes_arguments {g : ResolverGroup} (hg : g ∈ f.groups) {r : Resolver}
    (hr : r ∈ g.resolvers) (harguments : r.arguments.isEmpty = false) :
    lang.groupBlocks g.type ++ [lang.argsName g.type r.field] ∈
      declaredTypes (place [] (f.statements lang)) := by
  have hopens : (lang.groupBlocks g.type,
      .opens lang.recordKeyword (lang.argsName g.type r.field)) ∈
      place (lang.groupBlocks g.type) (groupBody lang g) := by
    rw [place_groupBody]
    simp only [List.mem_append, List.mem_flatMap]
    refine .inl (.inl (.inr ⟨r, hr, ?_⟩))
    rw [harguments, if_neg (by simp), place_recordStatements]
    simp
  exact mem_declaredTypes_record (mem_place_of_mem_groups hg hopens)

theorem mem_declaredTypes_resolver {g : ResolverGroup} (hg : g ∈ f.groups) {r : Resolver}
    (hr : r ∈ g.resolvers) :
    lang.groupBlocks g.type ++ [lang.resolverName g.type r.field] ∈
      declaredTypes (place [] (f.statements lang)) := by
  have halias : (lang.groupBlocks g.type,
      .alias (lang.resolverName g.type r.field) (signatureTokens lang g r)) ∈
      place (lang.groupBlocks g.type) (groupBody lang g) := by
    rw [place_groupBody]
    simp only [List.mem_append, List.mem_map]
    exact .inl (.inr ⟨_, List.mem_map.2 ⟨r, hr, rfl⟩, rfl⟩)
  exact mem_declaredTypes_alias (mem_place_of_mem_groups hg halias)

theorem mem_declaredTypes_groupType {g : ResolverGroup} (hg : g ∈ f.groups) :
    lang.groupBlocks g.type ++ [lang.groupName g.type] ∈
      declaredTypes (place [] (f.statements lang)) := by
  have hopens : (lang.groupBlocks g.type, .opens lang.recordKeyword (lang.groupName g.type)) ∈
      place (lang.groupBlocks g.type) (groupBody lang g) := by
    rw [place_groupBody, groupTypeStatements, place_recordStatements]
    simp
  exact mem_declaredTypes_record (mem_place_of_mem_groups hg hopens)

/-- What a file knows means something everywhere in it. -/
theorem resolves_of_knows {type : String} (h : f.Knows lang type) (blocks : List String) :
    Resolves lang (place [] (f.statements lang)) blocks [type] := by
  rcases h with h | h | h
  · exact .inl ⟨type, rfl, .inl h⟩
  · obtain ⟨g, hg, h⟩ := List.mem_flatMap.1 h
    obtain ⟨i, hi, rfl⟩ := List.mem_map.1 h
    have himport : .imports g.names (quotedPath g.specifier) ∈ headStatements lang f := by
      simp only [headStatements, importStatements, List.mem_append, List.mem_map]
      exact .inl (.inl (.inl (.inr ⟨g, hg, rfl⟩)))
    exact .inl ⟨i.2, rfl, .inr (mem_importedNames (mem_place_of_mem_head himport) hi)⟩
  · exact .inr ⟨[], List.nil_prefix, mem_declaredTypes_of_mem_declared h⟩

/-- The types that every types file imports mean something everywhere. -/
theorem resolves_of_fixed {type : String} (h : type = "Context" ∨ type = "GraphQLResolveInfo")
    (blocks : List String) : Resolves lang (place [] (f.statements lang)) blocks [type] := by
  refine .inl ⟨type, rfl, .inr ?_⟩
  have hhead : ∀ s, s ∈ importStatements f → s ∈ headStatements lang f := fun s hs => by
    simp [headStatements, hs]
  rcases h with rfl | rfl
  · have himport : .imports [("Context", "Context")] (quotedPath f.contextPath) ∈
        importStatements f := by simp [importStatements]
    exact mem_importedNames (mem_place_of_mem_head (hhead _ himport)) (.head _)
  · have himport : .imports [("GraphQLResolveInfo", "GraphQLResolveInfo")] (quotedPath "graphql") ∈
        importStatements f := by simp [importStatements]
    exact mem_importedNames (mem_place_of_mem_head (hhead _ himport)) (.head _)

theorem resolves_of_mem_type {t : TypeExpr} (h : f.Knows lang t.base) {q : List String}
    (hq : q ∈ typeNames (t.tokens lang)) (blocks : List String) :
    Resolves lang (place [] (f.statements lang)) blocks q := by
  rcases eq_of_mem_typeNames_type hq with rfl | rfl | rfl
  · exact resolves_of_knows h blocks
  · exact resolves_of_knows (.inl (by cases lang <;> decide)) blocks
  · exact resolves_of_knows (.inl (by cases lang <;> decide)) blocks

theorem Member.references_statement (lang : Language) (m : Member) :
    (m.statement lang).references = typeNames (m.type.tokens lang) := by
  show typeNames (m.type.tokens lang ++ lang.endTokens) = _
  rw [typeNames_append (breaks_endTokens lang)]
  cases lang <;> simp [Language.endTokens, typeNames]

/-- The members of a record mean something in the record. -/
theorem allResolve_record {ps : List Placed} {blocks : List String} {name : String}
    {members : List Member} (h : ∀ m ∈ members, ∀ q ∈ typeNames (m.type.tokens lang),
      Resolves lang ps (blocks ++ [name]) q) :
    AllResolve lang ps blocks (recordStatements lang name members) := by
  refine .block (closes_of_isFlat isFlat_of_mem_members) (.flat isFlat_of_mem_members ?_)
  intro s hs q hq
  obtain ⟨m, hm, rfl⟩ := List.mem_map.1 hs
  rw [Member.references_statement] at hq
  exact h m hm q hq

/-! ## Resolvers -/

section

variable (hf : f.IsComplete lang) {g : ResolverGroup} (hg : g ∈ f.groups)

include hf hg

theorem allResolve_defaults :
    AllResolve lang (place [] (f.statements lang)) (lang.groupBlocks g.type)
      (defaultStatements lang g) := by
  refine .block (closes_of_isFlat isFlat_of_mem_delegated) (.flat isFlat_of_mem_delegated ?_)
  intro s hs q hq
  obtain ⟨n, -, rfl⟩ := List.mem_map.1 hs
  obtain rfl : q = [g.parent] := by simpa [Statement.references] using hq
  exact resolves_of_knows (hf.parents g hg) _

theorem allResolve_arguments :
    AllResolve lang (place [] (f.statements lang)) (lang.groupBlocks g.type)
      (argumentStatements lang g) := by
  refine .flatMap (fun r _ => closes_argumentRecord lang g r) fun r hr => ?_
  split
  · exact .nil
  · exact allResolve_record fun m hm q hq =>
      resolves_of_mem_type (hf.arguments g hg r hr m hm) hq _

theorem allResolve_signatures :
    AllResolve lang (place [] (f.statements lang)) (lang.groupBlocks g.type)
      (signatureStatements lang g) := by
  refine .flat isFlat_of_mem_signatures ?_
  intro s hs q hq
  obtain ⟨r, hr, rfl⟩ := List.mem_map.1 hs
  have hq : q ∈ typeNames (signatureTokens lang g r) := hq
  simp only [typeNames_signature, List.mem_append, List.mem_cons, List.not_mem_nil,
    or_false] at hq
  rcases hq with ((((rfl | hq) | rfl | rfl) | hq) | rfl) | hq
  · exact resolves_of_knows (hf.parents g hg) _
  · obtain ⟨hempty, rfl⟩ := eq_of_mem_typeNames_arguments hq
    exact .inr ⟨_, List.prefix_rfl, mem_declaredTypes_arguments hg hr hempty⟩
  · exact resolves_of_fixed (.inl rfl) _
  · exact resolves_of_fixed (.inr rfl) _
  · exact resolves_of_mem_type (hf.results g hg r hr) hq _
  · exact resolves_of_knows (.inl (by cases lang <;> decide)) _
  · exact resolves_of_mem_type (hf.results g hg r hr) hq _

omit hf in
theorem allResolve_groupType :
    AllResolve lang (place [] (f.statements lang)) (lang.groupBlocks g.type)
      (groupTypeStatements lang g) := by
  refine allResolve_record fun m hm q hq => ?_
  obtain ⟨r, hr, rfl⟩ := List.mem_map.1 hm
  obtain rfl : q = [lang.resolverName g.type r.field] := by
    simpa [namedMember, TypeExpr.tokens, Language.optionalTokens, typeNames] using hq
  exact .inr ⟨_, List.prefix_append _ _, mem_declaredTypes_resolver hg hr⟩

theorem allResolve_groupBody :
    AllResolve lang (place [] (f.statements lang)) (lang.groupBlocks g.type)
      (groupBody lang g) := by
  simp only [groupBody, List.append_assoc]
  exact .append (closes_defaultStatements lang g) (allResolve_defaults hf hg) <|
    .append (closes_argumentStatements lang g) (allResolve_arguments hf hg) <|
    .append (closes_of_isFlat isFlat_of_mem_signatures) (allResolve_signatures hf hg)
      (allResolve_groupType hg)

theorem allResolve_groupStatements :
    AllResolve lang (place [] (f.statements lang)) [] (groupStatements lang g) := by
  cases lang with
  | typescript => exact .block (closes_groupBody .typescript g) (allResolve_groupBody hf hg)
  | flow => exact allResolve_groupBody hf hg

end

/-! ## The whole file -/

theorem typeNames_intercalate (tss : List (List Token)) :
    typeNames ([.mark '|'].intercalate tss) = tss.flatMap typeNames := by
  induction tss with
  | nil => rfl
  | cons ts r ih =>
    cases r with
    | nil => simp
    | cons us r =>
      have hbar := breaks_mark (by decide : '|' ≠ '.') (by decide : '|' ≠ ':')
        ([.mark '|'].intercalate (us :: r))
      rw [List.intercalate_cons_cons, List.append_assoc, List.singleton_append,
        typeNames_append hbar, List.flatMap_cons, ← ih]
      rfl

theorem mem_typeNames_choice {c : Choice} {q : List String} (h : q ∈ typeNames (c.tokens lang)) :
    q = [lang.emptyType] ∨ ∃ o ∈ c.options, q ∈ typeNames (tokens o) := by
  unfold Choice.tokens at h
  split_ifs at h
  · exact .inl (by simpa [typeNames] using h)
  · rw [typeNames_intercalate] at h
    obtain ⟨ts, hts, hq⟩ := List.mem_flatMap.1 h
    obtain ⟨o, ho, rfl⟩ := List.mem_map.1 hts
    exact .inr ⟨o, ho, hq⟩

theorem resolves_of_mem_head (hf : f.IsComplete lang) {s : Statement}
    (hs : s ∈ headStatements lang f) {q : List String} (hq : q ∈ s.references) :
    Resolves lang (place [] (f.statements lang)) [] q := by
  have hempty : f.Knows lang lang.emptyType := .inl (by cases lang <;> decide)
  simp only [headStatements, List.mem_append, List.mem_map] at hs
  rcases hs with ((hs | hs) | ⟨e, he, rfl⟩) | ⟨u, hu, rfl⟩
  · simp only [importStatements, List.mem_append, List.mem_cons, List.not_mem_nil, or_false,
      List.mem_map] at hs
    rcases hs with (rfl | rfl) | ⟨g, -, rfl⟩ <;> cases hq
  · unfold reexportStatements at hs
    split_ifs at hs
    · cases hs
    · obtain rfl := List.mem_singleton.1 hs
      obtain ⟨n, hn, rfl⟩ := List.mem_map.1 hq
      exact resolves_of_knows (.inr (.inl hn)) []
  · rcases mem_typeNames_choice hq with rfl | ⟨o, ho, hq⟩
    · exact resolves_of_knows hempty []
    · obtain ⟨v, hv, rfl⟩ := hf.enums e he o ho
      rw [(spells_quoted hv.quote_not_mem).tokens] at hq
      cases hq
  · rcases mem_typeNames_choice hq with rfl | ⟨o, ho, hq⟩
    · exact resolves_of_knows hempty []
    · obtain ⟨hword, hknown⟩ := hf.unions u hu o ho
      rw [(Spells.word hword).tokens] at hq
      obtain rfl : q = [o] := by simpa [typeNames] using hq
      exact resolves_of_knows hknown []

theorem allResolve_index :
    AllResolve lang (place [] (f.statements lang)) [] (indexStatements lang f.groups) := by
  refine .block (closes_of_isFlat isFlat_of_mem_index) (.flat isFlat_of_mem_index ?_)
  intro s hs q hq
  obtain ⟨g, hg, rfl⟩ := List.mem_map.1 hs
  have hq : q ∈ typeNames (resolversTypeTokens lang g.type ++ lang.endTokens) := hq
  have htype := @mem_declaredTypes_groupType lang f g hg
  have hgroup : q = lang.groupBlocks g.type ++ [lang.groupName g.type] := by
    cases lang <;>
      simpa [resolversTypeTokens, Language.endTokens, typeNames, Language.groupBlocks,
        Language.groupName] using hq
  rw [hgroup]
  exact .inr ⟨[], List.nil_prefix, htype⟩

/-- Everything that a complete file mentions means something in it. -/
theorem allResolve_of_isComplete (hf : f.IsComplete lang) :
    AllResolve lang (place [] (f.statements lang)) [] (f.statements lang) := by
  have hhead : AllResolve lang (place [] (f.statements lang)) [] (headStatements lang f) :=
    .flat isFlat_of_mem_head fun s hs q hq => resolves_of_mem_head hf hs hq
  have hrecords : AllResolve lang (place [] (f.statements lang)) []
      (f.records.flatMap fun r => recordStatements lang r.name r.members) :=
    .flatMap (fun r _ => closes_recordStatements lang r.name r.members) fun r hr =>
      allResolve_record fun m hm q hq => resolves_of_mem_type (hf.records r hr m hm) hq _
  have hgroups : AllResolve lang (place [] (f.statements lang)) []
      (f.groups.flatMap (groupStatements lang)) :=
    .flatMap (fun g _ => closes_groupStatements lang g) fun g hg => allResolve_groupStatements hf hg
  have hparts := AllResolve.append (closes_of_isFlat isFlat_of_mem_head) hhead <|
    .append (closes_records lang f) hrecords <|
    .append (closes_groups lang f) hgroups allResolve_index
  rwa [← TypesFile.statements_eq] at hparts

end

/-! ## Files of accepted schemas -/

open Schema (Field ObjectType TypeUse Violation)
open Sdl (TypeKind Document)

/-- The types of a schema that are declared in its types file. -/
def dataNames (s : Schema) : List String :=
  s.enums.map (·.name) ++ s.unions.map (·.name) ++ s.inputs.map (·.name) ++ s.types.map (·.name)

/-- A type that is no scalar belongs to one of the collections that are declared. -/
theorem mem_dataNames_of_mem_declared {d : Document} {name : String} {kind : TypeKind}
    (h : (name, kind) ∈ Schema.declared d) (hkind : kind ≠ .scalar) :
    name ∈ dataNames (Schema.merged d) := by
  obtain ⟨shape, hs, rfl⟩ := Schema.mem_declared.1 h
  obtain ⟨description, directives, hx⟩ := Schema.mem_definitions.1 hs
  simp only [dataNames, List.mem_append, List.mem_map]
  cases shape with
  | scalar => exact absurd rfl hkind
  | object interfaces fields => exact .inr ⟨_, List.mem_filterMap.2 ⟨_, hx, rfl⟩, rfl⟩
  | interface interfaces fields => exact .inr ⟨_, List.mem_filterMap.2 ⟨_, hx, rfl⟩, rfl⟩
  | union members => exact .inl (.inl (.inr ⟨_, List.mem_filterMap.2 ⟨_, hx, rfl⟩, rfl⟩))
  | enum values => exact .inl (.inl (.inl ⟨_, List.mem_filterMap.2 ⟨_, hx, rfl⟩, rfl⟩))
  | input fields => exact .inl (.inr ⟨_, List.mem_filterMap.2 ⟨_, hx, rfl⟩, rfl⟩)

/-- The types of a schema mention only what is built in or declared. -/
structure IsClosedSchema (s : Schema) : Prop where
  uses : ∀ u ∈ Schema.typeUses s, u.kind ≠ .scalar → u.name ∈ dataNames s
  members : ∀ u ∈ s.unions, ∀ m ∈ u.members, m ∈ dataNames s

theorem isClosedSchema_of_ofDocument {d : Document} {s : Schema}
    (h : Schema.ofDocument d = .ok s) : IsClosedSchema s := by
  obtain ⟨rfl, hnone⟩ := Schema.merged_of_ofDocument h
  constructor
  · intro u hu hkind
    rcases Schema.kind_of_mem_typeUses hnone hu with hdeclared | ⟨-, -, hscalar⟩
    · exact mem_dataNames_of_mem_declared hdeclared hkind
    · exact absurd hscalar hkind
  · intro u hu m hm
    obtain ⟨t, ht, rfl, -⟩ := Schema.type_of_mem_members hnone hu hm
    simp only [dataNames, List.mem_append, List.mem_map]
    exact .inr ⟨t, ht, rfl⟩

theorem mem_typeUses_of_type {s : Schema} {t : ObjectType} (ht : t ∈ s.types) {f : Field}
    (hf : f ∈ t.fields) {u : TypeUse} (hu : u ∈ f.uses) : u ∈ Schema.typeUses s :=
  List.mem_flatMap.2 ⟨f, List.mem_append_left _ (List.mem_flatMap.2 ⟨t, ht, hf⟩), hu⟩

theorem mem_typeUses_of_input {s : Schema} {t : Schema.InputType} (ht : t ∈ s.inputs) {f : Field}
    (hf : f ∈ t.fields) : f.type ∈ Schema.typeUses s :=
  List.mem_flatMap.2 ⟨f, List.mem_append_right _ (List.mem_flatMap.2 ⟨t, ht, hf⟩), .head _⟩

section

variable (lang : Language) (path : String) {s : Schema} {bindings : Model.Bindings}

theorem declared_ofPlan :
    ∀ n ∈ dataNames s, n ∈ (TypesFile.ofPlan lang path (.of s bindings)).declared := by
  intro n hn
  simp only [dataNames, TypesFile.declared, TypesFile.ofPlan, Plan.of, List.mem_append,
    List.mem_map] at hn ⊢
  rcases hn with ((⟨e, he, rfl⟩ | ⟨u, hu, rfl⟩) | ⟨t, ht, rfl⟩) | ⟨t, ht, rfl⟩
  · exact .inl (.inl ⟨_, ⟨e, he, rfl⟩, rfl⟩)
  · exact .inl (.inr ⟨_, ⟨u, hu, rfl⟩, rfl⟩)
  · exact .inr ⟨_, .inl ⟨t, ht, rfl⟩, rfl⟩
  · exact .inr ⟨_, .inr ⟨t, ht, rfl⟩, rfl⟩

theorem mem_models_ofPlan {type model : String}
    (h : (Plan.of s bindings).model? type = some model) :
    model ∈ (TypesFile.ofPlan lang path (.of s bindings)).models := by
  obtain ⟨⟨specifier, name⟩, hkey⟩ := Plan.exists_key_of_model? h
  obtain ⟨g, hg, hi⟩ := exists_importGroup_of_mem hkey
  exact List.mem_flatMap.2 ⟨g, hg, List.mem_map.2 ⟨_, hi, rfl⟩⟩

theorem knows_scalarType (f : TypesFile) (scalar : String) :
    f.Knows lang (lang.scalarType scalar) := by
  refine .inl ?_
  unfold Language.scalarType
  split <;> cases lang <;> simp [builtinTypes]

theorem knows_dataType (hs : IsClosedSchema s) {u : TypeUse} (hu : u ∈ Schema.typeUses s) :
    (TypesFile.ofPlan lang path (.of s bindings)).Knows lang (dataType lang u).base := by
  unfold dataType
  split_ifs with hkind
  · exact knows_scalarType lang _ u.name
  · exact .inr (.inr (declared_ofPlan lang path _ (hs.uses u hu hkind)))

theorem knows_resultType (hs : IsClosedSchema s) {u : TypeUse} (hu : u ∈ Schema.typeUses s) :
    (TypesFile.ofPlan lang path (.of s bindings)).Knows lang
      (resultType lang (.of s bindings) u).base := by
  have hname (hkind : u.kind ≠ .scalar) :
      (TypesFile.ofPlan lang path (.of s bindings)).Knows lang u.name :=
    .inr (.inr (declared_ofPlan lang path _ (hs.uses u hu hkind)))
  unfold resultType
  split
  · exact knows_scalarType lang _ u.name
  · next hkind =>
    cases hm : (Plan.of s bindings).model? u.name with
    | none => exact hname (by rw [hkind]; decide)
    | some model => exact .inr (.inl (mem_models_ofPlan lang path hm))
  · next hkind _ => exact hname hkind

theorem knows_parent {t : ObjectType} (ht : t ∈ s.types) :
    (TypesFile.ofPlan lang path (.of s bindings)).Knows lang
      ((Plan.of s bindings).parent lang.rootParent t) := by
  unfold Plan.parent
  split
  · next model hm => exact .inr (.inl (mem_models_ofPlan lang path hm))
  · split_ifs
    · exact .inl (by cases lang <;> decide)
    · refine .inr (.inr (declared_ofPlan lang path _ ?_))
      simp only [dataNames, List.mem_append, List.mem_map]
      exact .inr ⟨t, ht, rfl⟩

/-- The types file of an accepted schema is complete. -/
theorem ofPlan_isComplete (hnamed : s.IsNamed) (hs : IsClosedSchema s) :
    (TypesFile.ofPlan lang path (.of s bindings)).IsComplete lang := by
  have hfields : ∀ {fields : List Field}, (∀ f ∈ fields, f.type ∈ Schema.typeUses s) →
      ∀ m ∈ fieldMembers lang fields,
        (TypesFile.ofPlan lang path (.of s bindings)).Knows lang m.type.base := by
    intro fields huses m hm
    obtain ⟨f, hf, rfl⟩ := List.mem_map.1 hm
    exact knows_dataType lang path hs (huses f hf)
  constructor
  · intro c hc o ho
    obtain ⟨e, he, rfl⟩ := List.mem_map.1 hc
    obtain ⟨v, hv, rfl⟩ := List.mem_map.1 ho
    exact ⟨v, isWord_of_isName ((hnamed.enums e he).2 v hv), rfl⟩
  · intro c hc o ho
    obtain ⟨u, hu, rfl⟩ := List.mem_map.1 hc
    refine ⟨isWord_of_isName ((hnamed.unions u hu).2 o ho), .inr (.inr ?_)⟩
    exact declared_ofPlan lang path _ (hs.members u hu o ho)
  · intro r hr
    rcases List.mem_append.1 hr with hr | hr
    · obtain ⟨t, ht, rfl⟩ := List.mem_map.1 hr
      exact hfields fun f hf => mem_typeUses_of_input ht hf
    · obtain ⟨t, ht, rfl⟩ := List.mem_map.1 hr
      exact hfields fun f hf => mem_typeUses_of_type ht hf (.head _)
  · intro g hg
    obtain ⟨t, ht, rfl⟩ := List.mem_map.1 hg
    exact knows_parent lang path (List.mem_of_mem_filter ht)
  · intro g hg r hr m hm
    obtain ⟨t, ht, rfl⟩ := List.mem_map.1 hg
    obtain ⟨f, hf, rfl⟩ := List.mem_map.1 hr
    obtain ⟨a, ha, rfl⟩ := List.mem_map.1 hm
    refine knows_dataType lang path hs (mem_typeUses_of_type (List.mem_of_mem_filter ht) hf ?_)
    exact List.mem_cons_of_mem _ (List.mem_map_of_mem ha)
  · intro g hg r hr
    obtain ⟨t, ht, rfl⟩ := List.mem_map.1 hg
    obtain ⟨f, hf, rfl⟩ := List.mem_map.1 hr
    exact knows_resultType lang path hs
      (mem_typeUses_of_type (List.mem_of_mem_filter ht) hf (.head _))

end

/-- A document with types of all kinds. -/
def memberDocument : Document :=
  [.type none "Node" [] (.interface [] [⟨none, "id", [], .named "ID" true, []⟩]),
   .type none "Color" [] (.enum [⟨none, "RED", []⟩, ⟨none, "BLUE", []⟩]),
   .type none "Filter" [] (.input
     [⟨none, "color", .named "Color" false, none, []⟩,
      ⟨none, "limit", .named "Int" false, none, []⟩]),
   .type none "Hit" [] (.union ["Member", "Team"]),
   .type none "Query" [] (.object []
     [⟨none, "find", [⟨none, "filter", .named "Filter" true, none, []⟩],
       .list (.named "Hit" true) true, []⟩,
      ⟨none, "lead", [], .named "Member" false, []⟩]),
   .type none "Member" [] (.object ["Node"]
     [⟨none, "id", [], .named "ID" true, []⟩, ⟨none, "color", [], .named "Color" false, []⟩,
      ⟨none, "team", [], .named "Team" false, []⟩]),
   .type none "Team" [] (.object [] [⟨none, "title", [], .named "String" false, []⟩])]

/-- A model with the name of its type, which the types file therefore knows under another name. -/
def memberBindings : Model.Bindings := [("Member", ⟨"src/member.ts", "../member", "Member"⟩)]

end ResolverKit.Code
