import ResolverKit.Proofs.Scopes

/-!
# Local names of models against declared names

A model whose name a types file needs otherwise is imported under another name.  The names that are
avoided are those that every file has and those of the types of the schema (`usedNames`).  The
names that are declared for the resolvers of object types are not among them, so a model may take
one: `models_avoid_usedNames` says which names are safe, and that a model keeps the others.
-/

namespace ResolverKit.Model

/-- No local name so far is one of these. -/
def Naming.Avoids (names : List String) (n : Naming) : Prop :=
  names ⊆ n.used ∧ ∀ p ∈ n.locals, p.2 ∉ names

theorem Naming.Avoids.add {names : List String} {n : Naming} (h : n.Avoids names) (key : Key) :
    (n.add key).Avoids names := by
  obtain ⟨hused, hlocals⟩ := h
  unfold Naming.add
  split
  · exact ⟨hused, hlocals⟩
  · refine ⟨fun x hx => List.mem_cons_of_mem _ (hused hx), fun p hp => ?_⟩
    rcases List.mem_append.1 hp with hp | hp
    · exact hlocals p hp
    · obtain rfl := List.mem_singleton.1 hp
      exact fun hfresh => freshName_not_mem n.used key.2 (hused hfresh)

/-- Models avoid the names that the file uses otherwise. -/
theorem not_mem_of_mem_nameModels {used : List String} {bindings : Bindings} {p : Key × String}
    (h : p ∈ nameModels used bindings) : p.2 ∉ used := by
  have hstart : (⟨used, []⟩ : Naming).Avoids used := ⟨List.Subset.refl used, by simp⟩
  obtain ⟨n, hn, hlocals⟩ := exists_naming hstart
    fun n hn (b : String × Binding) _ => hn.add b.2.key
  rw [← hlocals] at h
  exact hn.2 p h

/-- Names that are given stay. -/
theorem locals_subset_foldl (bindings : Bindings) (n : Naming) :
    n.locals ⊆ (bindings.foldl (fun n b => n.add b.2.key) n).locals := by
  induction bindings generalizing n with
  | nil => exact List.Subset.refl _
  | cons b r ih =>
    refine List.Subset.trans (fun p hp => ?_) (ih (n.add b.2.key))
    unfold Naming.add
    split
    · exact hp
    · exact List.mem_append_left _ hp

/-- The first model keeps its name if the file does not use it otherwise. -/
theorem mem_nameModels_of_not_mem {used : List String} {type : String} {b : Binding}
    (h : b.name ∉ used) (bindings : Bindings) :
    (b.key, b.name) ∈ nameModels used ((type, b) :: bindings) := by
  have hfresh : freshName used b.name = b.name := by
    rw [freshName, dif_neg h]
  have hfirst : (Naming.add ⟨used, []⟩ b.key).locals = [(b.key, b.name)] := by
    show [(b.key, freshName used b.name)] = _
    rw [hfresh]
  refine locals_subset_foldl bindings (Naming.add ⟨used, []⟩ b.key) ?_
  rw [hfirst]
  exact List.mem_singleton_self _

end ResolverKit.Model

namespace ResolverKit.Code

open Schema (ObjectType)
open Sdl (Document)
open Model (Bindings Binding)

/-- The names that the types file of a schema binds besides those of models. -/
def ownNames (lang : Language) (s : Schema) : List String :=
  ["GraphQLResolveInfo", "Context", "Resolvers"] ++ dataNames s ++
    s.objects.flatMap (outerNames lang)

def modelNames (lang : Language) (s : Schema) (bindings : Bindings) : List String :=
  (TypesFile.ofPlan lang contextPath (.of s bindings)).models

theorem mem_modelNames {lang : Language} {s : Schema} {bindings : Bindings} {n : String} :
    n ∈ modelNames lang s bindings ↔
      ∃ key, (key, n) ∈ Model.nameModels (usedNames s) bindings := by
  constructor
  · intro h
    obtain ⟨g, hg, h⟩ := List.mem_flatMap.1 h
    obtain ⟨i, hi, rfl⟩ := List.mem_map.1 h
    exact ⟨_, mem_importGroups hg hi⟩
  · rintro ⟨⟨specifier, name⟩, h⟩
    obtain ⟨g, hg, hi⟩ := exists_importGroup_of_mem h
    exact List.mem_flatMap.2 ⟨g, hg, List.mem_map.2 ⟨_, hi, rfl⟩⟩

theorem subset_usedNames (s : Schema) :
    ["GraphQLResolveInfo", "Context", "Resolvers"] ++ dataNames s ⊆ usedNames s := by
  intro n hn
  simp only [dataNames, usedNames, reservedNames, List.mem_append, List.mem_cons] at hn ⊢
  tauto

/-- What can be said of the names of models in the types file of a schema.  `clashes`: a name that
the file binds itself is met only where it is declared for the resolvers of an object type; `kept`:
there it is met by every first model of that name, unless a scalar of the schema has it too. -/
structure ModelNaming (lang : Language) (s : Schema) (bindings : Bindings) : Prop where
  avoided : ∀ n ∈ modelNames lang s bindings,
    n ∉ ["GraphQLResolveInfo", "Context", "Resolvers"] ++ dataNames s
  clashes : ∀ n ∈ modelNames lang s bindings,
    n ∈ ownNames lang s ↔ ∃ t ∈ s.objects, n ∈ outerNames lang t
  kept : ∀ t ∈ s.objects, ∀ n ∈ outerNames lang t, n ∉ usedNames s →
    ∀ (type file specifier : String) (rest : Bindings),
      bindings = (type, ⟨file, specifier, n⟩) :: rest → n ∈ modelNames lang s bindings
  bound : (∀ b ∈ bindings, IsWord b.2.name) → ∃ statements,
    read ((TypesFile.ofPlan lang contextPath (.of s bindings)).lines lang) = some statements ∧
      ∀ n, ([], n) ∈ boundNames (place [] statements) ↔
        n ∈ modelNames lang s bindings ∨ n ∈ ownNames lang s

/-- A name outside all blocks is that of a model or one of the file's own. -/
theorem mem_boundNames_outside {lang : Language} {s : Schema} {bindings : Bindings} {n : String} :
    ([], n) ∈ boundNames
        (place [] ((TypesFile.ofPlan lang contextPath (.of s bindings)).statements lang)) ↔
      n ∈ modelNames lang s bindings ∨ n ∈ ownNames lang s := by
  rw [boundNames_ofPlan]
  simp only [ownNames, modelNames, List.map_append, List.mem_append, List.mem_flatMap, List.mem_map,
    List.mem_cons, List.not_mem_nil, or_false, Prod.mk.injEq, true_and, exists_eq_right]
  have hinner : ∀ t : ObjectType, ¬ ∃ m ∈ innerNames lang t,
      [lang.resolversName t.name] = [] ∧ m = n := by simp
  simp only [hinner, or_false]
  -- the two sides differ in the place of `Resolvers` and of the models
  simp only [or_assoc, or_comm, or_left_comm]

/-- Models avoid the names of the types of a schema and those that every types file has, but not
the names that are declared for resolvers.  A parsed document is named (`Sdl.isNamed_of_parse`). -/
theorem models_avoid_usedNames (lang : Language) {d : Document} {s : Schema} {bindings : Bindings}
    (hd : d.IsNamed) (hs : Schema.ofDocument d = .ok s) : ModelNaming lang s bindings := by
  have havoided : ∀ n ∈ modelNames lang s bindings,
      n ∉ ["GraphQLResolveInfo", "Context", "Resolvers"] ++ dataNames s := by
    intro n hn hused
    obtain ⟨key, hkey⟩ := mem_modelNames.1 hn
    exact Model.not_mem_of_mem_nameModels hkey (subset_usedNames s hused)
  constructor
  · exact havoided
  · intro n hn
    rw [ownNames, List.mem_append, List.mem_flatMap]
    exact or_iff_right (havoided n hn)
  · rintro t - n - hused type file specifier rest rfl
    exact mem_modelNames.2 ⟨_, Model.mem_nameModels_of_not_mem hused rest⟩
  · intro hb
    have hnamed := Schema.isNamed_of_ofDocument hd hs
    exact ⟨_, TypesFile.read_ofPlan lang contextPath hnamed hb,
      fun n => mem_boundNames_outside⟩

/-- A document with one type. -/
def userDocument : Document :=
  [.type none "User" [] (.object [] [⟨none, "id", [], .named "ID" true, []⟩])]

/-- A model with the name of the namespace of its type. -/
def userBindings : Bindings := [("User", ⟨"/project/models.ts", "./models", "UserResolvers"⟩)]

/-- The types file declares `UserResolvers` and imports a model under the same name. -/
theorem model_takes_name_of_namespace :
    userDocument.IsNamed ∧ Schema.ofDocument userDocument = .ok (Schema.merged userDocument) ∧
      ModelNaming .typescript (Schema.merged userDocument) userBindings ∧
      "UserResolvers" ∈ modelNames .typescript (Schema.merged userDocument) userBindings ∧
      "UserResolvers" ∈ ownNames .typescript (Schema.merged userDocument) := by
  have hd : userDocument.IsNamed := by decide +kernel
  have hs : Schema.ofDocument userDocument = .ok (Schema.merged userDocument) := rfl
  have hnaming : ModelNaming .typescript (Schema.merged userDocument) userBindings :=
    models_avoid_usedNames .typescript hd hs
  have htype : ∃ t ∈ (Schema.merged userDocument).objects,
      "UserResolvers" ∈ outerNames .typescript t := ⟨_, .head _, by decide⟩
  obtain ⟨t, ht, hn⟩ := htype
  have hmodel := hnaming.kept t ht "UserResolvers" hn (by decide) _ _ _ [] rfl
  exact ⟨hd, hs, hnaming, hmodel, (hnaming.clashes _ hmodel).2 ⟨t, ht, hn⟩⟩

end ResolverKit.Code
