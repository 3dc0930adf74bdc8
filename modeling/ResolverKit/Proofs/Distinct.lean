import Mathlib.Data.List.Nodup
import Mathlib.Data.List.Perm.Basic
import ResolverKit.Proofs.ModelNames

/-!
# Names that a types file binds once

Without models, all names that a types file binds are made from names of the schema: those of its
types as they are, and for each object type names put together from the type and its fields.
Different fields may give one name, and a type of the schema may have a name that is put together
or that every file has.  `names_bound_once_iff` says that nothing else can go wrong: the file binds
no name twice in one scope exactly if the schema keeps these names apart (`NamesApart`).
-/

namespace ResolverKit.Code

open Schema (Field ObjectType)
open Sdl (Document IsName)

/-! ## Schemas that keep names apart -/

/-- No type of the schema has a name that every types file has, or that is put together for the
resolvers of an object type. -/
def TypesApart (lang : Language) (s : Schema) : Prop :=
  ∀ n ∈ dataNames s, n ∉ ["GraphQLResolveInfo", "Context", "Resolvers"] ∧
    ∀ t ∈ s.objects, n ∉ outerNames lang t

/-- The fields of each object type have different capitalised names, and the record of the
arguments of one is not called as the resolver of another. -/
structure TypeScript.FieldsApart (t : ObjectType) : Prop where
  fields : (t.fields.map fun f => Text.capitalize f.name).Nodup
  arguments : ∀ f ∈ t.fields, f.arguments.isEmpty = false → ∀ g ∈ t.fields,
    "Args" ++ Text.capitalize f.name ≠ Text.capitalize g.name ++ "Resolver"

/-- The field of an object type as it stands in names: the type, and the capitalised name. -/
def Flow.stems (t : ObjectType) : List String :=
  t.fields.map fun f => t.name ++ "_" ++ Text.capitalize f.name

/-- The names that are put together in a types file for this schema are different. -/
structure NamesApart (lang : Language) (s : Schema) : Prop where
  types : TypesApart lang s
  fields : match lang with
    | .typescript => ∀ t ∈ s.objects, TypeScript.FieldsApart t
    | .flow => (s.objects.flatMap Flow.stems).Nodup

instance (lang : Language) (s : Schema) : Decidable (TypesApart lang s) :=
  inferInstanceAs (Decidable (∀ n ∈ dataNames s, _ ∧ ∀ t ∈ s.objects, _))

instance (t : ObjectType) : Decidable (TypeScript.FieldsApart t) :=
  decidable_of_iff ((t.fields.map fun f => Text.capitalize f.name).Nodup ∧
      ∀ f ∈ t.fields, f.arguments.isEmpty = false → ∀ g ∈ t.fields,
        "Args" ++ Text.capitalize f.name ≠ Text.capitalize g.name ++ "Resolver")
    ⟨fun ⟨h, h'⟩ => ⟨h, h'⟩, fun ⟨h, h'⟩ => ⟨h, h'⟩⟩

instance (lang : Language) (s : Schema) : Decidable (NamesApart lang s) :=
  match lang with
  | .typescript => decidable_of_iff
      (TypesApart .typescript s ∧ ∀ t ∈ s.objects, TypeScript.FieldsApart t)
      ⟨fun ⟨h, h'⟩ => ⟨h, h'⟩, fun ⟨h, h'⟩ => ⟨h, h'⟩⟩
  | .flow => decidable_of_iff (TypesApart .flow s ∧ (s.objects.flatMap Flow.stems).Nodup)
      ⟨fun ⟨h, h'⟩ => ⟨h, h'⟩, fun ⟨h, h'⟩ => ⟨h, h'⟩⟩

/-! ## Endings -/

/-- Texts with endings of which neither ends with the other are different. -/
theorem append_ne_append {u v : String} (huv : ¬ u.toList <:+ v.toList)
    (hvu : ¬ v.toList <:+ u.toList) (a b : String) : a ++ u ≠ b ++ v := by
  intro h
  have hu : u.toList <:+ (b ++ v).toList := ⟨a.toList, by rw [← h, String.toList_append]⟩
  have hv : v.toList <:+ (b ++ v).toList := ⟨b.toList, by rw [String.toList_append]⟩
  rcases List.suffix_or_suffix_of_suffix hu hv with hs | hs
  · exact huv hs
  · exact hvu hs

theorem append_ne {u v : String} (huv : ¬ u.toList <:+ v.toList) (hvu : ¬ v.toList <:+ u.toList)
    (a : String) : a ++ u ≠ v := by
  have h := append_ne_append huv hvu a ""
  rwa [String.empty_append] at h

theorem append_ending_injective (u : String) : Function.Injective fun a : String => a ++ u :=
  fun _ _ h => (String.append_left_inj u).1 h

/-! ## Inside a namespace -/

/-- The names inside the namespace of a type are different exactly if its fields keep apart. -/
theorem nodup_innerNames_iff (t : ObjectType) :
    (innerNames .typescript t).Nodup ↔ TypeScript.FieldsApart t := by
  let args : List String :=
    (t.fields.filter (!·.arguments.isEmpty)).map fun f => "Args" ++ Text.capitalize f.name
  let resolvers : List String := t.fields.map fun f => Text.capitalize f.name ++ "Resolver"
  have hnames : innerNames .typescript t = "defaultResolvers" :: (args ++ resolvers ++ ["Type"]) :=
    rfl
  have hargs : ∀ n ∈ args, n ≠ "defaultResolvers" ∧ n ≠ "Type" := by
    intro n hn
    obtain ⟨f, -, rfl⟩ := List.mem_map.1 hn
    constructor <;> (intro h; simpa using congrArg (·.toList.head?) h)
  have hresolvers : ∀ n ∈ resolvers, n ≠ "defaultResolvers" ∧ n ≠ "Type" := by
    intro n hn
    obtain ⟨f, -, rfl⟩ := List.mem_map.1 hn
    exact ⟨append_ne (by decide) (by decide) _, append_ne (by decide) (by decide) _⟩
  have hfields : resolvers.Nodup ↔ (t.fields.map fun f => Text.capitalize f.name).Nodup := by
    have hmap : resolvers =
        (t.fields.map fun f => Text.capitalize f.name).map (· ++ "Resolver") := by
      rw [List.map_map]
      rfl
    rw [hmap, List.nodup_map_iff (append_ending_injective "Resolver")]
  have hsub : (t.fields.map fun f => Text.capitalize f.name).Nodup → args.Nodup := by
    intro h
    have hmap : args = ((t.fields.filter (!·.arguments.isEmpty)).map
        fun f => Text.capitalize f.name).map ("Args" ++ ·) := by
      rw [List.map_map]
      rfl
    rw [hmap, List.nodup_map_iff fun _ _ he => (String.append_right_inj "Args").1 he]
    exact h.sublist (List.filter_sublist.map _)
  have happart : (∀ a ∈ args, ∀ r ∈ resolvers, a ≠ r) ↔
      ∀ f ∈ t.fields, f.arguments.isEmpty = false → ∀ g ∈ t.fields,
        "Args" ++ Text.capitalize f.name ≠ Text.capitalize g.name ++ "Resolver" := by
    constructor
    · intro h f hf harguments g hg
      have hf : f ∈ t.fields.filter (!·.arguments.isEmpty) :=
        List.mem_filter.2 ⟨hf, by rw [harguments]; rfl⟩
      exact h _ (List.mem_map_of_mem hf) _ (List.mem_map_of_mem hg)
    · intro h a ha r hr
      obtain ⟨f, hf, rfl⟩ := List.mem_map.1 ha
      obtain ⟨g, hg, rfl⟩ := List.mem_map.1 hr
      obtain ⟨hf, harguments⟩ := List.mem_filter.1 hf
      exact h f hf (by simpa using harguments) g hg
  rw [hnames]
  constructor
  · intro h
    obtain ⟨-, h⟩ := List.nodup_cons.1 h
    obtain ⟨h, -, -⟩ := List.nodup_append.1 h
    obtain ⟨-, hr, hne⟩ := List.nodup_append.1 h
    exact ⟨hfields.1 hr, happart.1 hne⟩
  · rintro ⟨h, hne⟩
    refine List.nodup_cons.2 ⟨?_, List.nodup_append.2 ⟨List.nodup_append.2
      ⟨hsub h, hfields.2 h, happart.2 hne⟩, List.nodup_singleton _, ?_⟩⟩
    · simp only [List.mem_append, List.mem_singleton]
      rintro ((hm | hm) | hm)
      · exact (hargs _ hm).1 rfl
      · exact (hresolvers _ hm).1 rfl
      · exact absurd hm (by decide)
    · intro n hn m hm
      obtain rfl := List.mem_singleton.1 hm
      rcases List.mem_append.1 hn with hn | hn
      · exact (hargs n hn).2
      · exact (hresolvers n hn).2

/-! ## Prefixed names -/

/-- The names of all resolvers in Flow, ordered by what is behind the names of the schema. -/
theorem flatMap_outerNames_perm (objects : List ObjectType) :
    (objects.flatMap (outerNames .flow)).Perm
      ((objects.map (·.name)).map (· ++ "_defaultResolvers") ++
        ((objects.flatMap fun t => (t.fields.filter (!·.arguments.isEmpty)).map
          fun f => t.name ++ "_" ++ Text.capitalize f.name).map (· ++ "_Args") ++
        ((objects.flatMap Flow.stems).map (· ++ "_Resolver") ++
          (objects.map (·.name)).map (· ++ "_Resolvers")))) := by
  have hnames : objects.flatMap (outerNames .flow) = objects.flatMap fun t =>
      [t.name ++ "_defaultResolvers"] ++
        (((t.fields.filter (!·.arguments.isEmpty)).map
          fun f => t.name ++ "_" ++ Text.capitalize f.name ++ "_Args") ++
        ((t.fields.map fun f => t.name ++ "_" ++ Text.capitalize f.name ++ "_Resolver") ++
          [t.name ++ "_Resolvers"])) := by
    congr 1
    funext t
    simp [outerNames, resolverNames, Language.defaultsName, Language.argsName,
      Language.resolverName, Language.groupName]
  have hparts := fun f g => (List.flatMap_append_perm objects f g : List.Perm (α := String) _ _)
  rw [hnames]
  refine (hparts _ _).symm.trans ?_
  refine List.Perm.append (.of_eq ?_) ((hparts _ _).symm.trans ?_)
  · simp [List.map_eq_flatMap, List.flatMap_assoc]
  · refine List.Perm.append (.of_eq ?_) ((hparts _ _).symm.trans (.of_eq ?_))
    · simp [List.map_flatMap, Function.comp_def]
    · have hstems : Flow.stems = fun t : ObjectType =>
          t.fields.map fun f => t.name ++ "_" ++ Text.capitalize f.name := rfl
      simp [hstems, List.map_flatMap, Function.comp_def, ← List.map_eq_flatMap]

/-- All resolvers in Flow have different names exactly if the fields of all types keep apart. -/
theorem nodup_flatMap_outerNames_iff {objects : List ObjectType}
    (hobjects : (objects.map (·.name)).Nodup) :
    (objects.flatMap (outerNames .flow)).Nodup ↔ (objects.flatMap Flow.stems).Nodup := by
  let args : List String := objects.flatMap fun t => (t.fields.filter (!·.arguments.isEmpty)).map
    fun f => t.name ++ "_" ++ Text.capitalize f.name
  have hsub : args.Sublist (objects.flatMap Flow.stems) := by
    show List.Sublist (objects.flatMap _) _
    clear hobjects args
    induction objects with
    | nil => exact List.Sublist.refl _
    | cons t r ih => exact (List.filter_sublist.map _).append ih
  have hmap : ∀ (u : String) (names : List String), (names.map (· ++ u)).Nodup ↔ names.Nodup :=
    fun u _ => List.nodup_map_iff (append_ending_injective u)
  have hendings : ∀ {u v : String}, ¬ u.toList <:+ v.toList → ¬ v.toList <:+ u.toList →
      ∀ as bs : List String, ∀ a ∈ as.map (· ++ u), ∀ b ∈ bs.map (· ++ v), a ≠ b := by
    intro u v huv hvu as bs a ha b hb
    obtain ⟨x, -, rfl⟩ := List.mem_map.1 ha
    obtain ⟨y, -, rfl⟩ := List.mem_map.1 hb
    exact append_ne_append huv hvu x y
  rw [(flatMap_outerNames_perm objects).nodup_iff]
  constructor
  · intro h
    obtain ⟨-, h, -⟩ := List.nodup_append.1 h
    obtain ⟨-, h, -⟩ := List.nodup_append.1 h
    exact (hmap _ _).1 (List.nodup_append.1 h).1
  · intro h
    have hlast : ((objects.flatMap Flow.stems).map (· ++ "_Resolver") ++
        (objects.map (·.name)).map (· ++ "_Resolvers")).Nodup :=
      List.nodup_append.2 ⟨(hmap _ _).2 h, (hmap _ _).2 hobjects,
        hendings (by decide) (by decide) _ _⟩
    have hargs : (args.map (· ++ "_Args") ++ ((objects.flatMap Flow.stems).map (· ++ "_Resolver") ++
        (objects.map (·.name)).map (· ++ "_Resolvers"))).Nodup := by
      refine List.nodup_append.2 ⟨(hmap _ _).2 (h.sublist hsub), hlast, fun a ha b hb => ?_⟩
      rcases List.mem_append.1 hb with hb | hb
      · exact hendings (by decide) (by decide) _ _ a ha b hb
      · exact hendings (by decide) (by decide) _ _ a ha b hb
    refine List.nodup_append.2 ⟨(hmap _ _).2 hobjects, hargs, fun a ha b hb => ?_⟩
    rcases List.mem_append.1 hb with hb | hb
    · exact hendings (by decide) (by decide) _ _ a ha b hb
    · rcases List.mem_append.1 hb with hb | hb
      · exact hendings (by decide) (by decide) _ _ a ha b hb
      · exact hendings (by decide) (by decide) _ _ a ha b hb

/-! ## Names of a schema -/

/-- No two types of an accepted schema have the same name. -/
theorem nodup_entryNames {d : Document} {s : Schema} (h : Schema.ofDocument d = .ok s) :
    (Schema.entryNames s).Nodup := by
  obtain ⟨rfl, hnone⟩ := Schema.merged_of_ofDocument h
  rw [(Schema.entryNames_merged d).nodup_iff]
  exact Schema.nodup_typeNames hnone

theorem nodup_dataNames {s : Schema} (h : (Schema.entryNames s).Nodup) : (dataNames s).Nodup := by
  have hfront := (List.nodup_append.1 h).1
  rw [List.append_assoc, List.append_assoc] at hfront
  rw [dataNames, (List.perm_append_comm).nodup_iff]
  rwa [List.append_assoc]

theorem nodup_objectNames {s : Schema} (h : (Schema.entryNames s).Nodup) :
    (s.objects.map (·.name)).Nodup := by
  simp only [Schema.entryNames, List.append_assoc] at h
  exact (List.nodup_append.1 h).1.sublist (List.filter_sublist.map _)

/-- The names that every types file has are not put together for resolvers. -/
theorem fixed_not_mem_outerNames {lang : Language} {t : ObjectType} (ht : t.name ≠ "") {n : String}
    (hn : n ∈ outerNames lang t) : n ∉ ["GraphQLResolveInfo", "Context", "Resolvers"] := by
  cases lang with
  | typescript =>
    obtain rfl : n = t.name ++ "Resolvers" := List.mem_singleton.1 hn
    have hresolvers : t.name ++ "Resolvers" ≠ "Resolvers" := fun h =>
      ht ((String.append_left_inj "Resolvers").1 (h.trans String.empty_append.symm))
    simp [append_ne (by decide : ¬ "Resolvers".toList <:+ "GraphQLResolveInfo".toList) (by decide),
      append_ne (by decide : ¬ "Resolvers".toList <:+ "Context".toList) (by decide), hresolvers]
  | flow =>
    have hunderscore : '_' ∈ n.toList := by
      simp only [outerNames, resolverNames, List.mem_append, List.mem_cons, List.mem_map,
        List.not_mem_nil, or_false] at hn
      rcases hn with ((rfl | ⟨f, -, rfl⟩) | ⟨f, -, rfl⟩) | rfl <;>
        simp [Language.defaultsName, Language.argsName, Language.resolverName, Language.groupName]
    rintro (_ | ⟨_, _ | ⟨_, _ | ⟨_, hnil⟩⟩⟩)
    · exact absurd hunderscore (by decide)
    · exact absurd hunderscore (by decide)
    · exact absurd hunderscore (by decide)
    · cases hnil

/-- The names outside all blocks are different exactly if those of the types keep apart and those
of the resolvers do. -/
theorem nodup_ownNames_iff {lang : Language} {s : Schema} (hnodup : (Schema.entryNames s).Nodup)
    (hnames : ∀ t ∈ s.objects, t.name ≠ "") :
    (ownNames lang s).Nodup ↔
      TypesApart lang s ∧ (s.objects.flatMap (outerNames lang)).Nodup := by
  have hfixed : ["GraphQLResolveInfo", "Context", "Resolvers"].Nodup := by decide
  rw [ownNames, List.nodup_append, List.nodup_append]
  constructor
  · rintro ⟨⟨-, -, hdata⟩, houter, hall⟩
    refine ⟨fun n hn => ⟨fun hf => hdata n hf n hn rfl, fun t ht ho => ?_⟩, houter⟩
    exact hall n (List.mem_append_right _ hn) n (List.mem_flatMap.2 ⟨t, ht, ho⟩) rfl
  · rintro ⟨hapart, houter⟩
    refine ⟨⟨hfixed, nodup_dataNames hnodup, ?_⟩, houter, ?_⟩
    · rintro n hf m hm rfl
      exact (hapart n hm).1 hf
    · rintro n hn m hm rfl
      obtain ⟨t, ht, ho⟩ := List.mem_flatMap.1 hm
      rcases List.mem_append.1 hn with hf | hd
      · exact fixed_not_mem_outerNames (hnames t ht) ho hf
      · exact (hapart n hd).2 t ht ho

/-- The names inside the namespaces, each with its namespace. -/
def placedInnerNames (lang : Language) (s : Schema) : List (List String × String) :=
  s.objects.flatMap fun t => (innerNames lang t).map ([lang.resolversName t.name], ·)

theorem nodup_placedInnerNames_iff {lang : Language} {s : Schema}
    (hobjects : (s.objects.map (·.name)).Nodup) :
    (placedInnerNames lang s).Nodup ↔ ∀ t ∈ s.objects, (innerNames lang t).Nodup := by
  have hplaced : ∀ (blocks : List String) (names : List String),
      (names.map (blocks, ·)).Nodup ↔ names.Nodup := fun blocks names =>
    List.nodup_map_iff fun _ _ h => (Prod.mk.inj h).2
  have hname : ∀ t u : ObjectType, t.name ≠ u.name → List.Disjoint
      ((innerNames lang t).map ([lang.resolversName t.name], ·))
      ((innerNames lang u).map ([lang.resolversName u.name], ·)) := by
    intro t u hne p ht hu
    obtain ⟨n, -, rfl⟩ := List.mem_map.1 ht
    obtain ⟨m, -, hm⟩ := List.mem_map.1 hu
    have hresolvers : lang.resolversName u.name = lang.resolversName t.name := by
      simpa using (Prod.mk.inj hm).1
    refine hne ?_
    cases lang with
    | typescript => exact ((String.append_left_inj _).1 hresolvers).symm
    | flow => exact ((String.append_left_inj _).1 hresolvers).symm
  have hdisjoint := (List.pairwise_map.1 hobjects).imp fun h => hname _ _ h
  simp only [placedInnerNames, List.nodup_flatMap, hplaced]
  exact and_iff_left hdisjoint

/-- Without models a types file binds its own names and those inside the namespaces. -/
theorem boundNames_perm (lang : Language) (path : String) (s : Schema) :
    (boundNames (place [] ((TypesFile.ofPlan lang path (.of s [])).statements lang))).Perm
      ((ownNames lang s).map ([], ·) ++ placedInnerNames lang s) := by
  have hmodels : (TypesFile.ofPlan lang path (.of s [])).models = [] := rfl
  have hobjects := List.flatMap_append_perm s.objects
    (fun t => (outerNames lang t).map (([] : List String), ·))
    (fun t => (innerNames lang t).map ([lang.resolversName t.name], ·))
  rw [boundNames_ofPlan, hmodels, List.append_nil, List.perm_iff_count]
  intro p
  have hcount := hobjects.count_eq p
  simp only [List.count_append] at hcount
  simp only [ownNames, placedInnerNames, List.map_append, List.map_cons, List.map_nil,
    List.map_flatMap, List.count_append, List.count_cons, List.count_nil]
  omega

/-- Without models, a types file binds no name twice in one scope exactly if the schema keeps apart
the names that are put together. -/
theorem nodup_boundNames_iff (lang : Language) (path : String) {s : Schema} (hnamed : s.IsNamed)
    (hnodup : (Schema.entryNames s).Nodup) :
    (boundNames (place [] ((TypesFile.ofPlan lang path (.of s [])).statements lang))).Nodup ↔
      NamesApart lang s := by
  have hnames : ∀ t ∈ s.objects, t.name ≠ "" := fun t ht =>
    (isWord_of_isName (hnamed.types t (List.mem_of_mem_filter ht)).1).1
  have hobjects := nodup_objectNames hnodup
  have hplaced : ((ownNames lang s).map (([] : List String), ·)).Nodup ↔
      (ownNames lang s).Nodup := List.nodup_map_iff fun _ _ h => (Prod.mk.inj h).2
  have hscopes : List.Disjoint ((ownNames lang s).map ([], ·)) (placedInnerNames lang s) := by
    intro p hown hinner
    obtain ⟨n, -, rfl⟩ := List.mem_map.1 hown
    obtain ⟨t, -, hp⟩ := List.mem_flatMap.1 hinner
    simp at hp
  rw [(boundNames_perm lang path s).nodup_iff, List.nodup_append', hplaced,
    nodup_ownNames_iff hnodup hnames, nodup_placedInnerNames_iff hobjects]
  cases lang with
  | typescript =>
    have houter : (s.objects.flatMap (outerNames .typescript)).Nodup := by
      have hmap : s.objects.flatMap (outerNames .typescript) =
          (s.objects.map (·.name)).map (· ++ "Resolvers") := by
        rw [List.map_map, List.map_eq_flatMap]
        rfl
      rw [hmap]
      exact (List.nodup_map_iff (append_ending_injective "Resolvers")).2 hobjects
    simp only [nodup_innerNames_iff]
    exact ⟨fun ⟨⟨htypes, _⟩, hfields, _⟩ => ⟨htypes, hfields⟩,
      fun ⟨htypes, hfields⟩ => ⟨⟨htypes, houter⟩, hfields, hscopes⟩⟩
  | flow =>
    rw [nodup_flatMap_outerNames_iff hobjects]
    exact ⟨fun ⟨⟨htypes, hfields⟩, _⟩ => ⟨htypes, hfields⟩,
      fun ⟨htypes, hfields⟩ => ⟨⟨htypes, hfields⟩, fun _ _ => List.nodup_nil, hscopes⟩⟩

/-- A document with two fields that have one capitalised name. -/
def namesakeDocument : Document :=
  [.type none "User" [] (.object [] [⟨none, "name", [], .named "String" false, []⟩,
    ⟨none, "Name", [], .named "String" false, []⟩])]

/-- Fields with different names may give one name: `NameResolver` is declared twice. -/
theorem namesakes_bound_twice :
    namesakeDocument.IsNamed ∧
      Schema.ofDocument namesakeDocument = .ok (Schema.merged namesakeDocument) ∧
      (∀ t ∈ (Schema.merged namesakeDocument).types, (t.fields.map (·.name)).Nodup) ∧
      ∃ statements,
        (generateRaw .typescript (.of (Schema.merged namesakeDocument) [])).types =
          renderLines ((TypesFile.ofPlan .typescript contextPath
            (.of (Schema.merged namesakeDocument) [])).lines .typescript) ∧
        read ((TypesFile.ofPlan .typescript contextPath
          (.of (Schema.merged namesakeDocument) [])).lines .typescript) = some statements ∧
        ¬ (boundNames (place [] statements)).Nodup := by
  have hd : namesakeDocument.IsNamed := by decide +kernel
  have hs : Schema.ofDocument namesakeDocument = .ok (Schema.merged namesakeDocument) := rfl
  have hnamed := Schema.isNamed_of_ofDocument hd hs
  have hclash : ¬ NamesApart .typescript (Schema.merged namesakeDocument) := by decide +kernel
  refine ⟨hd, hs, by decide, _, TypesFile.render_eq .typescript _,
    TypesFile.read_ofPlan .typescript contextPath hnamed (by simp), ?_⟩
  rwa [nodup_boundNames_iff .typescript contextPath hnamed (nodup_entryNames hs)]

/-- Without models, the types file of an accepted schema binds no name twice in one scope exactly
if the schema keeps apart the names that are put together.  A parsed document is named
(`Sdl.isNamed_of_parse`). -/
theorem names_bound_once_iff (lang : Language) {d : Document} {s : Schema} (hd : d.IsNamed)
    (hs : Schema.ofDocument d = .ok s) :
    ∃ statements,
      (generateRaw lang (.of s [])).types =
        renderLines ((TypesFile.ofPlan lang contextPath (.of s [])).lines lang) ∧
      read ((TypesFile.ofPlan lang contextPath (.of s [])).lines lang) = some statements ∧
      ((boundNames (place [] statements)).Nodup ↔ NamesApart lang s) := by
  have hnamed := Schema.isNamed_of_ofDocument hd hs
  exact ⟨_, TypesFile.render_eq lang _,
    TypesFile.read_ofPlan lang contextPath hnamed (by simp),
    nodup_boundNames_iff lang contextPath hnamed (nodup_entryNames hs)⟩

/-- The types file of a schema with one type binds no name twice. -/
theorem names_bound_once_userDocument :
    userDocument.IsNamed ∧ Schema.ofDocument userDocument = .ok (Schema.merged userDocument) ∧
      NamesApart .flow (Schema.merged userDocument) ∧
      ∃ statements,
        read ((TypesFile.ofPlan .flow contextPath (.of (Schema.merged userDocument) [])).lines
          .flow) = some statements ∧
        (boundNames (place [] statements)).Nodup := by
  have hd : userDocument.IsNamed := by decide +kernel
  have hs : Schema.ofDocument userDocument = .ok (Schema.merged userDocument) := rfl
  have hapart : NamesApart .flow (Schema.merged userDocument) := by decide +kernel
  obtain ⟨statements, -, hread, hiff⟩ := names_bound_once_iff .flow hd hs
  exact ⟨hd, hs, hapart, statements, hread, hiff.2 hapart⟩

end ResolverKit.Code
