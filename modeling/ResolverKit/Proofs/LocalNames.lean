import Mathlib.Data.List.Induction
import Mathlib.Order.Bounds.Basic
import ResolverKit.Proofs.FieldNames
import ResolverKit.Proofs.PlanNames

/-!
# Choosing local names

A model is what a specifier and a name refer to.  Each model gets its local name when it comes up
first: its own name with the least number of endings that is not used before.  `Chosen` is what
holds of the models met so far, `Chosen.add` is one more of them, and `chosen_naming` is the whole
run.  What follows for the imports of a types file is in `Plan.ImportsModels`:

    (Plan.of s bindings).ImportsModels                                         (plan_importsModels)
-/

namespace ResolverKit.Model

/-! ## Lists without repetition -/

variable {α β : Type} [BEq α] [LawfulBEq α] [BEq β] [LawfulBEq β]

theorem eraseDups_concat (l : List α) (a : α) :
    (l ++ [a]).eraseDups = if a ∈ l then l.eraseDups else l.eraseDups ++ [a] := by
  rw [List.eraseDups_append]
  by_cases h : a ∈ l <;> simp [List.removeAll, h, List.eraseDups_cons]

theorem nodup_eraseDups (l : List α) : l.eraseDups.Nodup := by
  induction l using List.reverseRecOn with
  | nil => exact List.nodup_nil
  | append_singleton l a ih =>
    rw [eraseDups_concat]
    split
    · exact ih
    · next h =>
      rw [← List.concat_eq_append, List.nodup_concat, List.mem_eraseDups]
      exact ⟨h, ih⟩

/-- Repetition may be dropped first, as it is dropped in the end. -/
theorem eraseDups_map_eraseDups (f : α → β) (l : List α) :
    (l.eraseDups.map f).eraseDups = (l.map f).eraseDups := by
  induction l using List.reverseRecOn with
  | nil => rfl
  | append_singleton l a ih =>
    rw [eraseDups_concat, List.map_append, List.map_singleton, eraseDups_concat, ← ih]
    by_cases ha : a ∈ l
    · rw [if_pos ha, if_pos (List.mem_map_of_mem ha)]
    · rw [if_neg ha, List.map_append, List.map_singleton, eraseDups_concat]
      have hmem : f a ∈ l.eraseDups.map f ↔ f a ∈ l.map f := by
        simp only [List.mem_map, List.mem_eraseDups]
      simp only [hmem]

/-! ## Endings -/

def withEndings (name : String) : Nat → String
  | 0 => name
  | k + 1 => withEndings name k ++ "Model"

theorem withEndings_append (name : String) (k : Nat) :
    withEndings (name ++ "Model") k = withEndings name (k + 1) := by
  induction k with
  | zero => rfl
  | succ k ih => rw [withEndings, ih, withEndings, withEndings, withEndings]

/-- A fresh name has the least number of endings with which it is not used. -/
theorem freshName_isLeast (used : List String) (name : String) :
    ∃ k, IsLeast {k | withEndings name k ∉ used} k ∧ freshName used name = withEndings name k := by
  have hfront : ∃ k, freshName used name = withEndings name k ∧
      ∀ j < k, withEndings name j ∈ used := by
    fun_induction freshName used name with
    | case1 used name h ih =>
      obtain ⟨k, hk, hless⟩ := ih
      refine ⟨k + 1, by rw [hk, withEndings_append], fun j hj => ?_⟩
      cases j with
      | zero => exact h
      | succ j =>
        rw [← withEndings_append]
        exact List.mem_of_mem_filter (hless j (by omega))
    | case2 used name h => exact ⟨0, rfl, by simp⟩
  obtain ⟨k, hk, hless⟩ := hfront
  refine ⟨k, ⟨?_, fun j hj => ?_⟩, hk⟩
  · show withEndings name k ∉ used
    rw [← hk]
    exact freshName_not_mem used name
  · by_contra hlt
    exact hj (hless j (by omega))

/-! ## The models in order -/

/-- The models behind some bindings, each once and in the order of first use. -/
def models (bindings : Bindings) : List Key := (bindings.map (·.2.key)).eraseDups

theorem mem_models {bindings : Bindings} {key : Key} :
    key ∈ models bindings ↔ ∃ b ∈ bindings, b.2.key = key := by
  rw [models, List.mem_eraseDups, List.mem_map]

theorem models_concat (bindings : Bindings) (b : String × Binding) :
    models (bindings ++ [b]) =
      if b.2.key ∈ models bindings then models bindings else models bindings ++ [b.2.key] := by
  simp only [models, List.map_append, List.map_singleton, eraseDups_concat, List.mem_eraseDups]

/-- The local names that are chosen for the models of some bindings: every model has one, in the
order of first use, and it is the first of its names that is not used before. -/
structure Chosen (used : List String) (bindings : Bindings) (n : Naming) : Prop where
  keys : n.locals.map (·.1) = models bindings
  taken : ∀ name, name ∈ n.used ↔ name ∈ used ∨ name ∈ n.locals.map (·.2)
  least : ∀ before key loc behind, n.locals = before ++ (key, loc) :: behind →
    ∃ k, IsLeast {k | withEndings key.2 k ∉ used ++ before.map (·.2)} k ∧ loc = withEndings key.2 k

theorem Chosen.add {used : List String} {bindings : Bindings} {n : Naming}
    (h : Chosen used bindings n) (b : String × Binding) :
    Chosen used (bindings ++ [b]) (n.add b.2.key) := by
  have hmet : (Keyed.get? b.2.key n.locals).isSome = true ↔ b.2.key ∈ models bindings := by
    rw [Code.isSome_get?_iff, h.keys]
  unfold Naming.add
  split
  · next loc hloc =>
    have hkey := hmet.1 (by rw [hloc]; rfl)
    exact ⟨by rw [models_concat, if_pos hkey, h.keys], h.taken, h.least⟩
  · next hnone =>
    have hkey : b.2.key ∉ models bindings := fun hm => by simp [hnone] at hmet; exact hmet hm
    have hsame : ∀ name, name ∈ used ++ n.locals.map (·.2) ↔ name ∈ n.used := fun name => by
      rw [List.mem_append, h.taken]
    refine ⟨?_, fun name => ?_, fun before key loc behind hsplit => ?_⟩
    · rw [models_concat, if_neg hkey, List.map_append, h.keys]
      rfl
    · simp only [List.mem_cons, List.map_append, List.map_cons, List.map_nil, List.mem_append,
        List.not_mem_nil, or_false, h.taken]
      tauto
    · rcases List.eq_nil_or_concat behind with rfl | ⟨behind, last, rfl⟩
      · -- the name that was chosen just now
        obtain ⟨hbefore, hlast⟩ := List.append_inj' hsplit rfl
        obtain ⟨rfl, rfl⟩ := Prod.mk.inj (List.singleton_inj.1 hlast)
        obtain ⟨k, hk, hfresh⟩ := freshName_isLeast n.used b.2.key.2
        refine ⟨k, ?_, hfresh⟩
        rw [← hbefore]
        simpa only [hsame] using hk
      · rw [List.concat_eq_append, ← List.cons_append, ← List.append_assoc] at hsplit
        exact h.least before key loc behind (List.append_inj' hsplit rfl).1

/-- The models of all bindings have their names chosen in this way. -/
theorem chosen_naming (used : List String) (bindings : Bindings) :
    ∃ n, Chosen used bindings n ∧ n.locals = nameModels used bindings := by
  refine ⟨_, ?_, rfl⟩
  induction bindings using List.reverseRecOn with
  | nil => exact ⟨rfl, by simp, by simp⟩
  | append_singleton bindings b ih =>
    rw [List.foldl_append]
    exact ih.add b

/-- No local name is used twice. -/
theorem Chosen.nodup {used : List String} {bindings : Bindings} {n : Naming}
    (h : Chosen used bindings n) : (n.locals.map (·.2)).Nodup := by
  rw [List.Nodup, List.pairwise_map]
  refine Schema.pairwise_of_forall_front fun before p behind hsplit q hq he => ?_
  obtain ⟨k, hk, hloc⟩ := h.least before p.1 p.2 behind hsplit
  exact hk.1 (List.mem_append_right _ (List.mem_map.2 ⟨q, hq, he.trans hloc⟩))

/-- No local name is among those that are used otherwise. -/
theorem Chosen.not_mem_used {used : List String} {bindings : Bindings} {n : Naming}
    (h : Chosen used bindings n) {p : Key × String} (hp : p ∈ n.locals) : p.2 ∉ used := by
  obtain ⟨before, behind, hsplit⟩ := List.append_of_mem hp
  obtain ⟨k, hk, hloc⟩ := h.least before p.1 p.2 behind hsplit
  rw [hloc]
  exact fun hused => hk.1 (List.mem_append_left _ hused)

/-- Models have the same local name only if they are the same. -/
theorem Chosen.get?_eq_iff {used : List String} {bindings : Bindings} {n : Naming}
    (h : Chosen used bindings n) {key key' : Key} (hkey : key ∈ models bindings)
    (hkey' : key' ∈ models bindings) :
    Keyed.get? key n.locals = Keyed.get? key' n.locals ↔ key = key' := by
  constructor
  · intro he
    rw [← h.keys, ← Code.isSome_get?_iff, Option.isSome_iff_exists] at hkey hkey'
    obtain ⟨loc, hloc⟩ := hkey
    obtain ⟨loc', hloc'⟩ := hkey'
    obtain rfl : loc = loc' := Option.some.inj (hloc.symm.trans (he.trans hloc'))
    have hpair := List.inj_on_of_nodup_map h.nodup (Keyed.mem_of_get? hloc)
      (Keyed.mem_of_get? hloc') rfl
    exact congrArg Prod.fst hpair
  · rintro rfl
    rfl

/-! ## Imports -/

def importedModels (groups : List ImportGroup) : List Key :=
  groups.flatMap fun g => g.names.map fun i => (g.specifier, i.1)

theorem map_specifier_importGroups (locals : List (Key × String)) :
    (importGroups locals).map (·.specifier) = (locals.map (·.1.1)).eraseDups := by
  simp only [importGroups, List.map_map, Function.comp_def, List.map_id']

/-- A group imports the models of its specifier, in their order. -/
theorem importedModels_importGroups (locals : List (Key × String)) :
    importedModels (importGroups locals) =
      (locals.map (·.1.1)).eraseDups.flatMap fun specifier =>
        (locals.map (·.1)).filter (·.1 = specifier) := by
  rw [importedModels, importGroups, List.flatMap_map]
  refine List.flatMap_congr fun specifier _ => ?_
  rw [List.filter_map, List.map_map]
  refine List.map_congr_left fun p hp => ?_
  have hp : p.1.1 = specifier := by simpa using (List.mem_filter.1 hp).2
  exact Prod.ext hp.symm rfl

/-- Every model that has a local name is imported once. -/
theorem importedModels_perm {locals : List (Key × String)} (h : (locals.map (·.1)).Nodup) :
    (importedModels (importGroups locals)).Perm (locals.map (·.1)) := by
  rw [importedModels_importGroups]
  have hnodup : ((locals.map (·.1.1)).eraseDups.flatMap fun specifier =>
      (locals.map (·.1)).filter (·.1 = specifier)).Nodup := by
    refine List.nodup_flatMap.2 ⟨fun specifier _ => h.filter _, ?_⟩
    refine (nodup_eraseDups _).imp fun {specifier specifier'} hne key hkey hkey' => hne ?_
    have hs := (List.mem_filter.1 hkey).2
    have hs' := (List.mem_filter.1 hkey').2
    exact (of_decide_eq_true hs).symm.trans (of_decide_eq_true hs')
  refine (List.perm_ext_iff_of_nodup hnodup h).2 fun key => ?_
  simp only [List.mem_flatMap, List.mem_eraseDups, List.mem_filter, decide_eq_true_eq]
  constructor
  · rintro ⟨specifier, -, hkey, -⟩
    exact hkey
  · intro hkey
    obtain ⟨p, hp, rfl⟩ := List.mem_map.1 hkey
    exact ⟨p.1.1, List.mem_map_of_mem hp, hkey, rfl⟩

theorem names_ne_nil {locals : List (Key × String)} {g : ImportGroup}
    (h : g ∈ importGroups locals) : g.names ≠ [] := by
  obtain ⟨specifier, hs, rfl⟩ := List.mem_map.1 h
  obtain ⟨p, hp, rfl⟩ := List.mem_map.1 (List.mem_eraseDups.1 hs)
  exact List.ne_nil_of_mem (List.mem_map_of_mem (List.mem_filter.2 ⟨hp, by simp⟩))

end ResolverKit.Model

namespace ResolverKit.Code

open Model (Bindings models importGroups importedModels withEndings)

/-- How a plan names and imports its models.  `keys`: each model has one local name, in the order
of first use; `distinct`, `avoided`: it is that of no other model and none that the file needs
otherwise; `bound`, `same`: a bound type has the local name of its model and no other type has it
but those bound to the same model; `least`: it is the model's name with the least number of endings
that avoids the names used before.  `imported`: each model is imported once, and `item`: under its
local name; `groups`, `filled`: there is one import for each specifier, in the order of first use,
and none is empty. -/
structure Plan.ImportsModels (p : Plan) : Prop where
  keys : p.locals.map (·.1) = models p.bindings
  distinct : (p.locals.map (·.2)).Nodup
  avoided : ∀ name ∈ p.locals.map (·.2), name ∉ ["Context", "GraphQLResolveInfo", "Resolvers"] ∧
    name ∉ p.schema.types.map (·.name) ∧ name ∉ p.schema.enums.map (·.name) ∧
    name ∉ p.schema.unions.map (·.name) ∧ name ∉ p.schema.inputs.map (·.name) ∧
    name ∉ p.schema.scalars.map (·.name)
  bound : ∀ type ∈ p.bindings.map (·.1), ∃ name, p.model? type = some name
  same : ∀ type type' b b', Keyed.get? type p.bindings = some b →
    Keyed.get? type' p.bindings = some b' →
      (p.model? type = p.model? type' ↔ b.specifier = b'.specifier ∧ b.name = b'.name)
  least : ∀ before key loc behind, p.locals = before ++ (key, loc) :: behind →
    ∃ k, IsLeast {k | withEndings key.2 k ∉ usedNames p.schema ++ before.map (·.2)} k ∧
      loc = withEndings key.2 k
  imported : (importedModels (importGroups p.locals)).Perm (models p.bindings)
  item : ∀ g ∈ importGroups p.locals, ∀ i ∈ g.names, ((g.specifier, i.1), i.2) ∈ p.locals ∧
    importItem i = if i.2 = i.1 then i.1 else i.1 ++ " as " ++ i.2
  groups : (importGroups p.locals).map (·.specifier) =
    (p.bindings.map (·.2.specifier)).eraseDups
  filled : ∀ g ∈ importGroups p.locals, g.names ≠ []

/-- The models of a schema are named and imported in this way, whatever the schema declares and
whichever models are bound. -/
theorem plan_importsModels (s : Schema) (bindings : Bindings) :
    (Plan.of s bindings).ImportsModels := by
  obtain ⟨n, hn, hlocals⟩ := Model.chosen_naming (usedNames s) bindings
  have hplan : (Plan.of s bindings).locals = n.locals := hlocals.symm
  have hnodup : (n.locals.map (·.1)).Nodup := by
    rw [hn.keys]
    exact Model.nodup_eraseDups _
  have hmodel : ∀ {type b}, Keyed.get? type bindings = some b →
      (Plan.of s bindings).model? type = Keyed.get? b.key n.locals := by
    intro type b hb
    rw [Plan.model?, Model.localName?, hplan]
    show (Keyed.get? type bindings).bind _ = _
    rw [hb, Option.bind_some]
  have hmodels : ∀ {type b}, Keyed.get? type bindings = some b → b.key ∈ models bindings :=
    fun hb => Model.mem_models.2 ⟨_, Keyed.mem_of_get? hb, rfl⟩
  constructor
  case keys => exact hplan ▸ hn.keys
  case distinct => exact hplan ▸ hn.nodup
  case avoided =>
    intro name hname
    rw [hplan] at hname
    obtain ⟨p, hp, rfl⟩ := List.mem_map.1 hname
    have havoided := hn.not_mem_used hp
    simp only [usedNames, reservedNames, List.mem_append, not_or, and_assoc] at havoided
    exact havoided
  case bound =>
    intro type htype
    refine Option.ne_none_iff_exists'.1 fun hnone => ?_
    exact Plan.model?_eq_none_iff.1 hnone htype
  case same =>
    intro type type' b b' hb hb'
    rw [hmodel hb, hmodel hb', hn.get?_eq_iff (hmodels hb) (hmodels hb')]
    exact Prod.mk_inj
  case least => exact hplan ▸ hn.least
  case imported =>
    rw [hplan]
    exact hn.keys ▸ Model.importedModels_perm hnodup
  case item =>
    intro g hg i hi
    refine ⟨mem_importGroups hg hi, ?_⟩
    rw [importItem]
    simp only [eq_comm]
  case groups =>
    rw [Model.map_specifier_importGroups, hplan, ← Function.comp_def, ← List.map_map, hn.keys,
      models, Model.eraseDups_map_eraseDups, List.map_map]
    rfl
  case filled => exact fun g => Model.names_ne_nil

end ResolverKit.Code
