import ResolverKit.Proofs.FileParts
import ResolverKit.Proofs.References
import ResolverKit.Proofs.ScaffoldReading

/-!
# The scaffolds fit the types file

The types file and the scaffolds of one plan are written separately, and each recomputes the
parents of the resolvers and the fields that only ask the parent.  `scaffolds_agree` says that they
agree: in the keys of the resolvers, in those that only ask the parent, in the names that are
imported and exported, and in the identifier that a resolver returns where another one takes it.
-/

namespace ResolverKit.Code

open Schema (Field ObjectType)
open Sdl (Document IsName)

/-! ## What generated files show -/

/-- The statements that stand directly in these blocks. -/
def statementsIn (blocks : List String) (ss : List Statement) : List Statement :=
  (place [] ss).filterMap fun (around, s) => if around = blocks then some s else none

/-- The key of a resolver that only asks the parent. -/
def asked? : Statement → Option String
  | .asks name _ => some name
  | _ => none

def keysOf (constant : String) (ss : List Statement) : List String :=
  (statementsIn [constant] ss).filterMap key?

/-- The keys of the resolvers in a constant that only ask the parent. -/
def askedKeys (constant : String) (ss : List Statement) : List String :=
  (statementsIn [constant] ss).filterMap asked?

/-- The names that are imported from this path, as they are called there. -/
def importedFrom (path : String) (ss : List Statement) : List String :=
  ss.flatMap fun
    | .imports items path' => if path' = path then items.map (·.1) else []
    | _ => []

/-- The names that a statement outside all blocks exports. -/
def Statement.exports : Statement → List String
  | .alias name _ => [name]
  | .opens _ name => [name]
  | .reexports names => names
  | _ => []

def exportedNames (ss : List Statement) : List String :=
  (statementsIn [] ss).flatMap Statement.exports

/-- The type of the parent in the type of a resolver. -/
def parentOf : List Token → String
  | .mark '(' :: .word "parent" :: .mark ':' :: .word parent :: _ => parent
  | _ => ""

def resultOf : List Token → List Token
  | .mark '=' :: .mark '>' :: r => r
  | _ :: r => resultOf r
  | [] => []

/-- The types of the parents that the resolvers of a type take. -/
def parents (lang : Language) (type : String) (ss : List Statement) : List String :=
  (signatures lang type ss).map (parentOf ·.2)

/-- The resolver of this type returns values of `name`, alone or in lists, at once or later. -/
def Returns (resolver : List Token) (name : String) : Prop :=
  [name] ∈ typeNames (resultOf resolver) ∧
    ∀ q ∈ typeNames (resultOf resolver), q = [name] ∨ q ∈ [["Array"], ["null"], ["Promise"]]

/-- The scaffold of a type fits the types file; `bound` are the types with models. -/
structure Agrees (lang : Language) (bound : List String) (types scaffold : List Statement)
    (t : ObjectType) : Prop where
  fields : resolverKeys lang t.name types = t.fields.map (·.name)
  keys : keysOf t.name scaffold = resolverKeys lang t.name types
  delegated : lang.rootParent ∉ parents lang t.name types →
    askedKeys t.name scaffold = defaultKeys lang t.name types
  root : t.isRoot = true → t.name ∉ bound →
    askedKeys t.name scaffold = [] ∧ defaultKeys lang t.name types = []
  imports : ∀ n ∈ importedFrom placeholder scaffold, n ∈ exportedNames types

/-- Further imports: names and path. -/
def otherImport? : Statement → Option (List (String × String) × String)
  | .imports items path => if path = placeholder then none else some (items, path)
  | _ => none

/-- The file that collects the resolvers fits the types file. -/
structure IndexAgrees (lang : Language) (types index : List Statement) : Prop where
  imports : index.filterMap otherImport? =
    (indexKeys lang types).map fun type => ([(type, type)], "./" ++ type)
  keys : keysOf "resolvers" index = indexKeys lang types
  exported : ∀ n ∈ importedFrom placeholder index, n ∈ exportedNames types

/-- A resolver whose field is of an object type returns what the resolvers of that type take. -/
structure ResultsAgree (lang : Language) (bound : List String) (types : List Statement)
    (objects : List ObjectType) : Prop where
  names : ∀ t ∈ objects, (signatures lang t.name types).map (·.1) =
    t.fields.map fun f => lang.resolverName t.name f.name
  results : ∀ t ∈ objects, ∀ p ∈ t.fields.zip (signatures lang t.name types),
    ∀ u ∈ objects, u.name = p.1.type.name → ¬ (u.isRoot = true ∧ u.name ∉ bound) →
      ∀ parent ∈ parents lang u.name types, Returns p.2.2 parent

/-! ## Exports of a types file -/

theorem mem_exportedNames {ss : List Statement} {s : Statement} (h : ([], s) ∈ place [] ss)
    {n : String} (hn : n ∈ s.exports) : n ∈ exportedNames ss :=
  List.mem_flatMap.2 ⟨s, List.mem_filterMap.2 ⟨_, h, if_pos rfl⟩, hn⟩

/-- What is declared outside all blocks is exported. -/
theorem mem_exportedNames_of_mem_declaredTypes {ss : List Statement} {n : String}
    (h : [n] ∈ declaredTypes (place [] ss)) : n ∈ exportedNames ss := by
  obtain ⟨⟨blocks, s⟩, hs, hn⟩ := List.mem_filterMap.1 h
  have houtside : ∀ {name : String}, some (blocks ++ [name]) = some [n] →
      blocks = [] ∧ name = n := by
    intro name he
    cases blocks with
    | nil => exact ⟨rfl, by simpa using he⟩
    | cons b r => simp at he
  split at hn
  · next name _ he =>
    cases he
    obtain ⟨rfl, rfl⟩ := houtside hn
    exact mem_exportedNames hs (.head _)
  · next name he =>
    cases he
    obtain ⟨rfl, rfl⟩ := houtside hn
    exact mem_exportedNames hs (.head _)
  · next name he =>
    cases he
    obtain ⟨rfl, rfl⟩ := houtside hn
    exact mem_exportedNames hs (.head _)
  · cases hn

section

variable {lang : Language} {f : TypesFile}

theorem mem_exportedNames_of_mem_models {n : String} (h : n ∈ f.models) :
    n ∈ exportedNames (f.statements lang) := by
  have hreexports : .reexports f.models ∈ headStatements lang f := by
    have hne : f.models.isEmpty = false := by
      cases hm : f.models with
      | nil => rw [hm] at h; cases h
      | cons _ _ => rfl
    simp [headStatements, reexportStatements, hne]
  exact mem_exportedNames (mem_place_of_mem_head hreexports) h

theorem mem_exportedNames_resolvers {g : ResolverGroup} (hg : g ∈ f.groups) :
    lang.resolversName g.type ∈ exportedNames (f.statements lang) := by
  cases lang with
  | typescript =>
    have hopens : ([], .opens "namespace" (g.type ++ "Resolvers")) ∈
        place [] (f.statements .typescript) := by
      rw [TypesFile.place_statements]
      simp only [List.mem_append, List.mem_flatMap]
      exact .inl (.inr ⟨g, hg, .head _⟩)
    exact mem_exportedNames hopens (.head _)
  | flow => exact mem_exportedNames_of_mem_declaredTypes (mem_declaredTypes_groupType hg)

theorem mem_exportedNames_index : "Resolvers" ∈ exportedNames (f.statements lang) := by
  have hopens : ([], .opens lang.recordKeyword "Resolvers") ∈ place [] (f.statements lang) := by
    rw [TypesFile.place_statements]
    exact List.mem_append_right _ (.head _)
  exact mem_exportedNames hopens (.head _)

end

/-! ## What a scaffold says -/

/-- What a scaffold says of a field directly in the block of its type. -/
def ScaffoldField.statement (parent : Option (String × String)) (f : ScaffoldField) : Statement :=
  match parent, f.delegated with
  | some (_, parent), true => .asks f.name parent
  | _, _ => .entry f.name false (unwrittenTokens parent)

theorem getLast?_unwrittenTokens (parent : Option (String × String)) :
    (unwrittenTokens parent).getLast? = some (.mark '{') :=
  List.getLast?_append_of_ne_nil _ (by simp)

/-- A resolver that has to be written is a block of its own. -/
theorem closes_unwritten (parent : Option (String × String)) (name : String) :
    Closes [.entry name false (unwrittenTokens parent), .throws, .closes] := by
  intro blocks
  simp [Statement.blocksBehind, getLast?_unwrittenTokens]

theorem directly_unwritten (parent : Option (String × String)) (name : String)
    (blocks : List String) :
    (place blocks [.entry name false (unwrittenTokens parent), .throws, .closes]).filterMap
        (fun (around, s) => if around = blocks then some s else none) =
      [.entry name false (unwrittenTokens parent)] := by
  simp [place, Statement.blocksBehind, getLast?_unwrittenTokens]

theorem closes_scaffoldField (parent : Option (String × String)) (f : ScaffoldField) :
    Closes (f.statements parent) := by
  obtain ⟨name, delegated⟩ := f
  rcases parent with _ | ⟨type, parent⟩
  · exact closes_unwritten none name
  · cases delegated with
    | true => exact fun _ => rfl
    | false => exact closes_unwritten (some (type, parent)) name

/-- Directly in the block of the type stands one statement of the field. -/
theorem directly_scaffoldField (parent : Option (String × String)) (f : ScaffoldField)
    (blocks : List String) :
    (place blocks (f.statements parent)).filterMap
        (fun (around, s) => if around = blocks then some s else none) = [f.statement parent] := by
  obtain ⟨name, delegated⟩ := f
  rcases parent with _ | ⟨type, parent⟩
  · exact directly_unwritten none name blocks
  · cases delegated with
    | true => simp [ScaffoldField.statements, ScaffoldField.statement, place]
    | false => exact directly_unwritten (some (type, parent)) name blocks

theorem statementsIn_scaffold (lang : Language) (s : TypeScaffold) :
    statementsIn [s.type] (s.statements lang) =
      s.fields.map (·.statement s.parent) ++ [.closes] := by
  have hfields : Closes (s.fields.flatMap (·.statements s.parent)) :=
    .flatMap fun f _ => closes_scaffoldField s.parent f
  have hplace : place [] (s.statements lang) =
      ([], .imports ((lang.resolversName s.type, lang.resolversName s.type) :: s.parent.toList)
        placeholder) ::
      ([], .constant s.type (resolversTypeTokens lang s.type ++ [.mark '=', .mark '{'])) ::
      place [s.type] (s.fields.flatMap (·.statements s.parent) ++ [.closes]) := rfl
  rw [statementsIn, hplace, hfields.place_append,
    Closes.place_flatMap fun f _ => closes_scaffoldField s.parent f,
    List.filterMap_cons_none (by simp), List.filterMap_cons_none (by simp), List.filterMap_append,
    List.filterMap_flatMap]
  simp only [directly_scaffoldField]
  simp [place, List.map_eq_flatMap]

theorem keysOf_scaffold (lang : Language) (s : TypeScaffold) :
    keysOf s.type (s.statements lang) = s.fields.map (·.name) := by
  have hkeys : key? ∘ (ScaffoldField.statement s.parent) = some ∘ (·.name) := by
    funext f
    show key? (f.statement s.parent) = some f.name
    unfold ScaffoldField.statement
    split <;> rfl
  rw [keysOf, statementsIn_scaffold, List.filterMap_append, List.filterMap_map, hkeys,
    List.filterMap_eq_map]
  simp [key?]

theorem askedKeys_scaffold (lang : Language) (s : TypeScaffold) :
    askedKeys s.type (s.statements lang) =
      if s.parent.isSome then (s.fields.filter (·.delegated)).map (·.name) else [] := by
  rw [askedKeys, statementsIn_scaffold, List.filterMap_append, List.filterMap_map]
  have hcloses : [Statement.closes].filterMap asked? = [] := rfl
  rw [hcloses, List.append_nil]
  cases hp : s.parent with
  | none =>
    rw [if_neg (by simp), List.filterMap_eq_nil_iff]
    intro f _
    rfl
  | some parent =>
    have hasked : asked? ∘ (ScaffoldField.statement (some parent)) =
        fun f => if f.delegated then some f.name else none := by
      funext f
      show asked? (f.statement (some parent)) = _
      unfold ScaffoldField.statement
      cases f.delegated <;> rfl
    rw [hasked, Option.isSome_some, if_pos rfl]
    induction s.fields with
    | nil => rfl
    | cons f r ih => cases hf : f.delegated <;> simp [hf, ih]

theorem importedFrom_scaffold (lang : Language) (s : TypeScaffold) :
    importedFrom placeholder (s.statements lang) =
      lang.resolversName s.type :: s.parent.toList.map (·.1) := by
  have hfields : ∀ f : ScaffoldField, importedFrom placeholder (f.statements s.parent) = [] := by
    intro f
    unfold ScaffoldField.statements
    split <;> rfl
  have hall : importedFrom placeholder (s.fields.flatMap (·.statements s.parent)) = [] := by
    unfold importedFrom at hfields ⊢
    rw [List.flatMap_assoc]
    simp [hfields]
  unfold importedFrom at hall ⊢
  unfold TypeScaffold.statements
  rw [List.cons_append, List.flatMap_cons, List.flatMap_append]
  simp [hall]

/-! ## Parents -/

section

variable {p : Plan} {t : ObjectType}

theorem Plan.parent_of_root {root : String} (h : t.isRoot = true ∧ p.model? t.name = none) :
    p.parent root t = root := by
  unfold Plan.parent
  rw [h.2]
  simp [h.1]

/-- Only a root type without a model has no parent in its scaffold. -/
theorem scaffoldParent_eq_none_iff {P : String → Prop} (hP : IsNameClass P)
    (hp : LocalsHaveNames P p.locals) (ht : IsName t.name) :
    scaffoldParent p t = none ↔ t.isRoot = true ∧ p.model? t.name = none := by
  constructor
  · intro h
    by_contra hparent
    have hname : P (p.parent "" t) :=
      hP.parent hp (fun hroot hm => absurd ⟨hroot, hm⟩ hparent) ht
    simp only [scaffoldParent, if_neg (hP.ne_empty hname)] at h
    split_ifs at h
  · intro h
    simp [scaffoldParent, Plan.parent_of_root h]

/-- The scaffold imports the parent's type under its own name or under one made from the type's. -/
theorem scaffoldParent_eq_some {q : String × String} (h : scaffoldParent p t = some q) :
    q.1 = p.parent "" t ∧ (q.2 = q.1 ∨ q.2 = t.name ++ "Parent") := by
  simp only [scaffoldParent] at h
  split_ifs at h with hempty hname
  · obtain rfl : (t.name, t.name ++ "Parent") = q := Option.some.inj h
    exact ⟨hname.symm, .inr rfl⟩
  · obtain rfl : (p.parent "" t, p.parent "" t) = q := Option.some.inj h
    exact ⟨rfl, .inl rfl⟩

/-- The names of a scaffold are of the class that those of the models are of. -/
theorem TypeScaffold.ofType_hasNames {P : String → Prop} (hP : IsNameClass P)
    (hp : LocalsHaveNames P p.locals) (ht : IsName t.name)
    (hfields : ∀ f ∈ t.fields, f.IsNamed) : (TypeScaffold.ofType p t).HasNames P := by
  refine ⟨hP.name ht, fun q hq => ?_, fun f hf => ?_⟩
  · have hq : scaffoldParent p t = some q := hq
    obtain ⟨hfirst, hsecond⟩ := scaffoldParent_eq_some hq
    have hparent : ¬ (t.isRoot = true ∧ p.model? t.name = none) := by
      rw [← scaffoldParent_eq_none_iff hP hp ht, hq]
      simp
    have hname : P q.1 := by
      rw [hfirst]
      exact hP.parent hp (fun hroot hm => absurd ⟨hroot, hm⟩ hparent) ht
    refine ⟨hname, ?_⟩
    rcases hsecond with h | h
    · rwa [h]
    · rw [h]
      exact hP.append (hP.name ht) (hP.name (by decide))
  · obtain ⟨g, hg, rfl⟩ := List.mem_map.1 hf
    exact hP.name (hfields g hg).name

theorem askedKeys_ofType (lang : Language) (p : Plan) (t : ObjectType) :
    askedKeys t.name ((TypeScaffold.ofType p t).statements lang) =
      if (scaffoldParent p t).isSome then (t.fields.filter isDelegated).map (·.name) else [] := by
  have hasked := askedKeys_scaffold lang (TypeScaffold.ofType p t)
  have hparent : (TypeScaffold.ofType p t).parent = scaffoldParent p t := rfl
  have hfields : (TypeScaffold.ofType p t).fields =
      t.fields.map fun f => ⟨f.name, isDelegated f && (scaffoldParent p t).isSome⟩ := rfl
  rw [hparent, hfields] at hasked
  refine Eq.trans hasked ?_
  cases (scaffoldParent p t).isSome with
  | false => rfl
  | true => simp [List.filter_map, Function.comp_def]

end

/-! ## The resolvers of a type -/

theorem parentOf_signature (lang : Language) (g : ResolverGroup) (r : Resolver) :
    parentOf (signatureTokens lang g r) = g.parent := by
  simp [signatureTokens, parentOf]

theorem resultOf_signature (lang : Language) (g : ResolverGroup) (r : Resolver) :
    resultOf (signatureTokens lang g r) =
      r.result.tokens lang ++ [.mark '|', .word "Promise", .mark '<'] ++ r.result.tokens lang ++
        [.mark '>'] := by
  unfold signatureTokens argumentTokens
  cases lang <;> split_ifs <;> simp [resultOf]

theorem returns_signature (lang : Language) (g : ResolverGroup) (r : Resolver) :
    Returns (signatureTokens lang g r) r.result.base := by
  have hbar := fun ts us => @typeNames_append (.mark '|' :: us)
    (breaks_mark (by decide) (by decide) us) ts
  have hend := fun ts => @typeNames_append [.mark '>'] (breaks_mark (by decide) (by decide) []) ts
  have hnames : typeNames (resultOf (signatureTokens lang g r)) =
      typeNames (r.result.tokens lang) ++ [["Promise"]] ++ typeNames (r.result.tokens lang) := by
    simp [resultOf_signature, typeNames, hbar, hend]
  have hbase := base_mem_typeNames_type lang r.result
  unfold Returns
  rw [hnames]
  refine ⟨by simp [hbase], fun q hq => ?_⟩
  simp only [List.mem_append, List.mem_singleton] at hq
  rcases hq with (hq | rfl) | hq
  · rcases eq_of_mem_typeNames_type hq with rfl | rfl | rfl <;> simp
  · simp
  · rcases eq_of_mem_typeNames_type hq with rfl | rfl | rfl <;> simp

/-! ## Agreement -/

theorem zip_map_self {α β : Type} (g : α → β) (xs : List α) :
    xs.zip (xs.map g) = xs.map fun x => (x, g x) := by
  simpa using @List.zip_map' _ _ _ id g xs

theorem declared_of_mem_types {d : Document} {t : ObjectType} (ht : t ∈ (Schema.merged d).types) :
    (t.name, t.kind) ∈ Schema.declared d := by
  obtain ⟨x, hx, hxt⟩ := List.mem_filterMap.1 ht
  cases x with
  | type description name directives base =>
    have hbase := Schema.mem_definitions.2 ⟨_, _, hx⟩
    cases base <;> cases hxt <;> exact Schema.mem_declared.2 ⟨_, hbase, rfl⟩
  | _ => cases hxt

section

variable {lang : Language} {path : String} {s : Schema} {bindings : Model.Bindings}

/-- The objects of a schema whose entries are distinct have distinct names. -/
theorem nodup_groups (h : (Schema.entryNames s).Nodup) :
    ((TypesFile.ofPlan lang path (.of s bindings)).groups.map (·.type)).Nodup := by
  have hobjects : (TypesFile.ofPlan lang path (.of s bindings)).groups.map (·.type) =
      s.objects.map (·.name) := by
    simp [TypesFile.ofPlan, ResolverGroup.ofType, Plan.of]
  have htypes : (s.types.map (·.name)).Nodup := by
    simp only [Schema.entryNames, List.append_assoc] at h
    exact (List.nodup_append.1 h).1
  rw [hobjects]
  exact htypes.sublist (List.filter_sublist.map _)

theorem group_mem_ofPlan {t : ObjectType} (ht : t ∈ s.objects) :
    ResolverGroup.ofType lang (.of s bindings) t ∈
      (TypesFile.ofPlan lang path (.of s bindings)).groups := List.mem_map_of_mem ht

/-- The types of the resolvers of an object type, one for each field. -/
theorem signatures_ofPlan (hnodup : (Schema.entryNames s).Nodup) {t : ObjectType}
    (ht : t ∈ s.objects) :
    signatures lang t.name ((TypesFile.ofPlan lang path (.of s bindings)).statements lang) =
      t.fields.map fun f => (lang.resolverName t.name f.name, signatureTokens lang
        (.ofType lang (.of s bindings) t) (.ofField lang (.of s bindings) f)) := by
  refine (signatures_eq (nodup_groups hnodup) (group_mem_ofPlan ht)).trans ?_
  simp [ResolverGroup.ofType, Resolver.ofField]

theorem resolverKeys_ofPlan (hnodup : (Schema.entryNames s).Nodup) {t : ObjectType}
    (ht : t ∈ s.objects) :
    resolverKeys lang t.name ((TypesFile.ofPlan lang path (.of s bindings)).statements lang) =
      t.fields.map (·.name) := by
  refine (resolverKeys_eq (nodup_groups hnodup) (group_mem_ofPlan ht)).trans ?_
  simp [ResolverGroup.ofType, Resolver.ofField]

theorem defaultKeys_ofPlan (hnodup : (Schema.entryNames s).Nodup) {t : ObjectType}
    (ht : t ∈ s.objects) :
    defaultKeys lang t.name ((TypesFile.ofPlan lang path (.of s bindings)).statements lang) =
      if (Plan.of s bindings).parent lang.rootParent t = lang.rootParent then []
      else (t.fields.filter isDelegated).map (·.name) :=
  defaultKeys_eq (nodup_groups hnodup) (group_mem_ofPlan ht)

theorem parents_ofPlan (hnodup : (Schema.entryNames s).Nodup) {t : ObjectType}
    (ht : t ∈ s.objects) :
    parents lang t.name ((TypesFile.ofPlan lang path (.of s bindings)).statements lang) =
      t.fields.map fun _ => (Plan.of s bindings).parent lang.rootParent t := by
  rw [parents, signatures_ofPlan hnodup ht, List.map_map]
  refine List.map_congr_left fun f _ => ?_
  exact parentOf_signature lang (.ofType lang (.of s bindings) t) (.ofField lang (.of s bindings) f)

/-- The type of the parent that a scaffold imports is exported by the types file. -/
theorem parent_mem_exportedNames {t : ObjectType} (ht : t ∈ s.objects)
    (h : ¬ (t.isRoot = true ∧ (Plan.of s bindings).model? t.name = none)) (root : String) :
    (Plan.of s bindings).parent root t ∈
      exportedNames ((TypesFile.ofPlan lang path (.of s bindings)).statements lang) := by
  unfold Plan.parent
  cases hm : (Plan.of s bindings).model? t.name with
  | some model => exact mem_exportedNames_of_mem_models (mem_models_ofPlan lang path hm)
  | none =>
    have hroot : t.isRoot = false := by simpa [hm] using h
    have hdata : t.name ∈ dataNames s := by
      simp only [dataNames, List.mem_append, List.mem_map]
      exact .inr ⟨t, List.mem_of_mem_filter ht, rfl⟩
    simp only [hroot, Bool.false_eq_true, if_false]
    exact mem_exportedNames_of_mem_declaredTypes
      (mem_declaredTypes_of_mem_declared (declared_ofPlan lang path _ hdata))

/-- What a scaffold imports from the types file is there. -/
theorem mem_exportedNames_of_mem_imports {t : ObjectType} (ht : t ∈ s.objects)
    (hparent : scaffoldParent (.of s bindings) t = none ↔
      t.isRoot = true ∧ (Plan.of s bindings).model? t.name = none) {n : String}
    (hn : n ∈ importedFrom placeholder
      ((TypeScaffold.ofType (.of s bindings) t).statements lang)) :
    n ∈ exportedNames ((TypesFile.ofPlan lang path (.of s bindings)).statements lang) := by
  rw [importedFrom_scaffold, List.mem_cons, List.mem_map] at hn
  rcases hn with rfl | ⟨q, hq, rfl⟩
  · exact mem_exportedNames_resolvers (group_mem_ofPlan ht)
  · have hq : scaffoldParent (.of s bindings) t = some q := Option.mem_toList.1 hq
    have hsome : ¬ (t.isRoot = true ∧ (Plan.of s bindings).model? t.name = none) := by
      rw [← hparent, hq]
      simp
    rw [(scaffoldParent_eq_some hq).1]
    exact parent_mem_exportedNames ht hsome ""

theorem agrees_ofPlan (hnamed : s.IsNamed) (hnodup : (Schema.entryNames s).Nodup)
    (hb : ∀ b ∈ bindings, IsWord b.2.name) {t : ObjectType} (ht : t ∈ s.objects) :
    Agrees lang (bindings.map (·.1))
      ((TypesFile.ofPlan lang path (.of s bindings)).statements lang)
      ((TypeScaffold.ofType (.of s bindings) t).statements lang) t := by
  have hlocals : LocalsHaveNames IsWord (Plan.of s bindings).locals :=
    isNameClass_isWord.nameModels _ hb
  have hparent := scaffoldParent_eq_none_iff isNameClass_isWord hlocals
    (hnamed.types t (List.mem_of_mem_filter ht)).1
  have hkeys := @resolverKeys_ofPlan lang path s bindings hnodup t ht
  have hdefault := @defaultKeys_ofPlan lang path s bindings hnodup t ht
  have hasked := askedKeys_ofType lang (.of s bindings) t
  constructor
  · exact hkeys
  · rw [hkeys]
    refine (keysOf_scaffold lang (TypeScaffold.ofType (.of s bindings) t)).trans ?_
    simp [TypeScaffold.ofType]
  · intro hparents
    rw [parents_ofPlan hnodup ht] at hparents
    rw [hasked, hdefault]
    by_cases hempty : t.fields = []
    · simp [hempty]
    · obtain ⟨f, hf⟩ := List.exists_mem_of_ne_nil _ hempty
      have hne : (Plan.of s bindings).parent lang.rootParent t ≠ lang.rootParent := fun he =>
        hparents (List.mem_map.2 ⟨f, hf, he⟩)
      have hsome : (scaffoldParent (.of s bindings) t).isSome = true := by
        rw [Option.isSome_iff_ne_none, ne_eq, hparent]
        exact fun hnone => hne (Plan.parent_of_root hnone)
      rw [if_pos hsome, if_neg hne]
  · intro hroot hbound
    have hnone : t.isRoot = true ∧ (Plan.of s bindings).model? t.name = none :=
      ⟨hroot, Plan.model?_eq_none_iff.2 hbound⟩
    rw [hasked, hdefault, hparent.2 hnone, Plan.parent_of_root hnone, if_pos rfl]
    exact ⟨rfl, rfl⟩
  · exact fun n hn => mem_exportedNames_of_mem_imports ht hparent hn

/-- A field whose type has the name of an object type is of that object type. -/
theorem kind_of_object {d : Document} (h : Schema.ofDocument d = .ok s) {t u : ObjectType}
    (ht : t ∈ s.types) (hu : u ∈ s.objects) {f : Field} (hf : f ∈ t.fields)
    (hname : u.name = f.type.name) : f.type.kind = .object := by
  obtain ⟨rfl, hnone⟩ := Schema.merged_of_ofDocument h
  have hdistinct := Schema.nodup_typeNames hnone
  obtain ⟨hu, hobject⟩ := List.mem_filter.1 hu
  have hdeclared : (f.type.name, .object) ∈ Schema.declared d := by
    have hkind : u.kind = .object := by
      have hinterface : u.isInterface = false := by simpa using hobject
      rw [ObjectType.kind, hinterface]
      rfl
    rw [← hname, ← hkind]
    exact declared_of_mem_types hu
  rcases Schema.kind_of_mem_typeUses hnone (mem_typeUses_of_type ht hf (.head _)) with
    hkind | ⟨hundeclared, -⟩
  · have hlookup := (Schema.lookup_eq_some_iff_mem hdistinct).2 hkind
    rw [(Schema.lookup_eq_some_iff_mem hdistinct).2 hdeclared] at hlookup
    exact (Option.some.inj hlookup).symm
  · exact absurd (List.mem_map_of_mem hdeclared) hundeclared

/-- A resolver returns what the resolvers of the object type of its field take. -/
theorem resultType_base {f : Field} {u : ObjectType} (hkind : f.type.kind = .object)
    (hname : u.name = f.type.name)
    (hu : ¬ (u.isRoot = true ∧ (Plan.of s bindings).model? u.name = none)) :
    (resultType lang (.of s bindings) f.type).base =
      (Plan.of s bindings).parent lang.rootParent u := by
  unfold resultType Plan.parent
  rw [hkind, ← hname]
  cases hm : (Plan.of s bindings).model? u.name with
  | some model => rfl
  | none =>
    have hroot : u.isRoot = false := by simpa [hm] using hu
    simp [hroot]

theorem resultsAgree_ofPlan {d : Document} (h : Schema.ofDocument d = .ok s)
    (hnodup : (Schema.entryNames s).Nodup) :
    ResultsAgree lang (bindings.map (·.1))
      ((TypesFile.ofPlan lang path (.of s bindings)).statements lang) s.objects := by
  constructor
  · intro t ht
    rw [signatures_ofPlan hnodup ht, List.map_map]
    rfl
  · intro t ht q hq u hu hname hroot parent hparent
    obtain ⟨f, hf, rfl⟩ : ∃ f ∈ t.fields, (f, lang.resolverName t.name f.name, signatureTokens lang
        (.ofType lang (.of s bindings) t) (.ofField lang (.of s bindings) f)) = q := by
      rw [signatures_ofPlan hnodup ht, zip_map_self] at hq
      exact List.mem_map.1 hq
    rw [parents_ofPlan hnodup hu] at hparent
    obtain ⟨-, -, rfl⟩ := List.mem_map.1 hparent
    rw [← Plan.model?_eq_none_iff (s := s)] at hroot
    have hkind := kind_of_object h (List.mem_of_mem_filter ht) hu hf hname
    rw [← resultType_base hkind hname hroot]
    exact returns_signature lang (.ofType lang (.of s bindings) t)
      (.ofField lang (.of s bindings) f)

theorem statementsIn_indexFile (types : List String) :
    statementsIn ["resolvers"] (indexFileStatements types) = types.map .item ++ [.closes] := by
  have himports : ∀ s ∈ Statement.imports [("Resolvers", "Resolvers")] placeholder ::
      types.map (fun t => .imports [(t, t)] ("./" ++ t)), s.IsFlat := by
    intro s hs
    rcases List.mem_cons.1 hs with rfl | hs
    · exact fun _ => rfl
    · obtain ⟨t, -, rfl⟩ := List.mem_map.1 hs
      exact fun _ => rfl
  have hitems : ∀ s ∈ types.map Statement.item, s.IsFlat := by
    intro s hs
    obtain ⟨t, -, rfl⟩ := List.mem_map.1 hs
    exact fun _ => rfl
  have hplace : place [] (indexFileStatements types) =
      (Statement.imports [("Resolvers", "Resolvers")] placeholder ::
        types.map (fun t => .imports [(t, t)] ("./" ++ t))).map ([], ·) ++
      ([], .constant "resolvers" [.word "Resolvers", .mark '=', .mark '{']) ::
        ((types.map .item).map (["resolvers"], ·) ++ [(["resolvers"], .closes)]) := by
    rw [indexFileStatements, List.append_assoc, (closes_of_isFlat himports).place_append,
      place_of_isFlat himports]
    congr 1
    show _ :: place ["resolvers"] (types.map .item ++ [.closes]) = _
    rw [(closes_of_isFlat hitems).place_append, place_of_isFlat hitems]
    rfl
  rw [statementsIn, hplace]
  simp [Function.comp_def]

/-- The file that collects the resolvers lists the members of the type of all resolvers. -/
theorem indexAgrees_ofPlan :
    IndexAgrees lang ((TypesFile.ofPlan lang path (.of s bindings)).statements lang)
      (indexFileStatements (s.objects.map (·.name))) := by
  have hkeys : indexKeys lang ((TypesFile.ofPlan lang path (.of s bindings)).statements lang) =
      s.objects.map (·.name) := by
    rw [indexKeys_eq]
    simp [TypesFile.ofPlan, ResolverGroup.ofType, Plan.of]
  have hother : ∀ type : String, "./" ++ type ≠ placeholder := by
    intro type he
    have hhead := congrArg (·.toList.head?) he
    simp [placeholder] at hhead
  constructor
  · rw [hkeys]
    generalize s.objects.map (·.name) = types
    have hitems : (types.map Statement.item).filterMap otherImport? = [] := by
      rw [List.filterMap_map]
      exact List.filterMap_eq_nil_iff.2 fun _ _ => rfl
    simp [indexFileStatements, List.filterMap_cons, hitems, otherImport?, hother,
      Function.comp_def]
  · have hitem : key? ∘ Statement.item = some := rfl
    rw [hkeys, keysOf, statementsIn_indexFile, List.filterMap_append, List.filterMap_map, hitem,
      List.filterMap_some]
    exact List.append_nil _
  · intro n hn
    obtain rfl : n = "Resolvers" := by
      simpa [indexFileStatements, importedFrom, hother, List.flatMap_map] using hn
    exact mem_exportedNames_index

end

/-- What is generated from a schema fits together; `types` is what the types file says. -/
structure Fits (lang : Language) (s : Schema) (bindings : Model.Bindings)
    (types : List Statement) : Prop where
  text : (generateRaw lang (.of s bindings)).types =
    renderLines ((TypesFile.ofPlan lang contextPath (.of s bindings)).lines lang)
  meaning : read ((TypesFile.ofPlan lang contextPath (.of s bindings)).lines lang) = some types
  files : (generateRaw lang (.of s bindings)).resolvers =
    s.objects.map (fun t => ⟨t.name ++ lang.extension,
      renderLines ((TypeScaffold.ofType (.of s bindings) t).lines lang), false⟩) ++
    [⟨"types/Context" ++ lang.extension, renderLines (contextLines lang), false⟩,
      ⟨"index" ++ lang.extension,
        renderLines (indexFileLines lang (s.objects.map (·.name))), false⟩]
  scaffolds : ∀ t ∈ s.objects, ∃ scaffold,
    read ((TypeScaffold.ofType (.of s bindings) t).lines lang) = some scaffold ∧
      Agrees lang (bindings.map (·.1)) types scaffold t
  index : ∃ index, read (indexFileLines lang (s.objects.map (·.name))) = some index ∧
    IndexAgrees lang types index
  results : ResultsAgree lang (bindings.map (·.1)) types s.objects

end ResolverKit.Code
