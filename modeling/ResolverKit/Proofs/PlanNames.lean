import ResolverKit.Proofs.NameClasses

/-!
# Names in a plan

Whatever class the names of the models belong to, all names in what is generated belong to it; and
those that are not taken from models do so for any models.

    IsNameClass P → s.IsNamed → (∀ b ∈ bindings, P b.2.name) →
      (TypesFile.ofPlan lang path (.of s bindings)).HasNames P         (TypesFile.ofPlan_hasNames)
-/

namespace ResolverKit.Model

/-- What holds before any model has a local name, and stays so when one gets its name, holds in
the end. -/
theorem exists_naming {M : Naming → Prop} {used : List String} {bindings : Bindings}
    (hstart : M ⟨used, []⟩) (hadd : ∀ n, M n → ∀ b ∈ bindings, M (n.add b.2.key)) :
    ∃ n, M n ∧ n.locals = nameModels used bindings :=
  ⟨_, List.foldlRecOn bindings _ hstart hadd, rfl⟩

end ResolverKit.Model

namespace ResolverKit.Code

open Sdl (IsName)
open Schema (Field ObjectType TypeUse)
open Model (Bindings Naming Key)

/-! ## Models -/

/-- Models and their local names are called by names of the class. -/
def LocalsHaveNames (P : String → Prop) (locals : List (Key × String)) : Prop :=
  ∀ p ∈ locals, P p.1.2 ∧ P p.2

/-- Every local name is made for a model from its name. -/
theorem exists_binding_of_mem_nameModels {used : List String} {bindings : Bindings}
    {p : Key × String} (h : p ∈ Model.nameModels used bindings) :
    ∃ b ∈ bindings, p.1 = b.2.key ∧ ∃ taken, p.2 = Model.freshName taken b.2.name := by
  obtain ⟨n, hn, hlocals⟩ := Model.exists_naming (M := fun n => ∀ p ∈ n.locals, ∃ b ∈ bindings,
    p.1 = b.2.key ∧ ∃ taken, p.2 = Model.freshName taken b.2.name) (by simp)
    fun n hn b hb p hp => by
      unfold Naming.add at hp
      split at hp
      · exact hn p hp
      · rcases List.mem_append.1 hp with hp | hp
        · exact hn p hp
        · obtain rfl := List.mem_singleton.1 hp
          exact ⟨b, hb, rfl, n.used, rfl⟩
  rw [← hlocals] at h
  exact hn p h

theorem mem_importGroups {locals : List (Key × String)} {g : Model.ImportGroup}
    (h : g ∈ Model.importGroups locals) {i : String × String} (hi : i ∈ g.names) :
    ((g.specifier, i.1), i.2) ∈ locals := by
  obtain ⟨specifier, -, rfl⟩ := List.mem_map.1 h
  obtain ⟨⟨⟨specifier', name⟩, loc⟩, hp, rfl⟩ := List.mem_map.1 hi
  obtain ⟨hlocal, hspecifier⟩ := List.mem_filter.1 hp
  obtain rfl : specifier' = specifier := by simpa using hspecifier
  exact hlocal

theorem exists_importGroup_of_mem {locals : List (Key × String)} {specifier name loc : String}
    (h : ((specifier, name), loc) ∈ locals) :
    ∃ g ∈ Model.importGroups locals, (name, loc) ∈ g.names := by
  refine ⟨_, List.mem_map_of_mem (a := specifier) ?_, ?_⟩
  · exact List.mem_eraseDups.2 (List.mem_map.2 ⟨_, h, rfl⟩)
  · exact List.mem_map.2 ⟨_, List.mem_filter.2 ⟨h, by simp⟩, rfl⟩

/-- The model behind a type is among those that have a local name. -/
theorem Plan.exists_key_of_model? {p : Plan} {type model : String}
    (h : p.model? type = some model) :
    ∃ key, (key, model) ∈ p.locals := by
  obtain ⟨b, -, hb⟩ := Option.bind_eq_some_iff.1 h
  exact ⟨b.key, Keyed.mem_of_get? hb⟩

theorem isSome_get?_iff {α β : Type} [DecidableEq α] {k : α} {l : List (α × β)} :
    (Keyed.get? k l).isSome = true ↔ k ∈ l.map (·.1) := by
  induction l with
  | nil => simp [Keyed.get?]
  | cons p r ih =>
    by_cases h : p.1 = k
    · simp [Keyed.get?, h]
    · simp [Keyed.get?, h, ih, Ne.symm h]

theorem mem_keys_add {n : Naming} {key k : Key} :
    k ∈ (n.add key).locals.map (·.1) ↔ k = key ∨ k ∈ n.locals.map (·.1) := by
  unfold Naming.add
  split
  · next v hv =>
    have hkey : key ∈ n.locals.map (·.1) := isSome_get?_iff.1 (by rw [hv]; rfl)
    constructor
    · exact .inr
    · rintro (rfl | hk)
      · exact hkey
      · exact hk
  · simp [or_comm]

/-- Every model gets a local name. -/
theorem key_mem_nameModels (used : List String) {bindings : Bindings}
    {b : String × Model.Binding} (hb : b ∈ bindings) :
    b.2.key ∈ (Model.nameModels used bindings).map (·.1) := by
  have hfold : ∀ (bs : Bindings) (n : Naming) (k : Key),
      k ∈ bs.map (·.2.key) ∨ k ∈ n.locals.map (·.1) →
      k ∈ (bs.foldl (fun n b => n.add b.2.key) n).locals.map (·.1) := by
    intro bs
    induction bs with
    | nil => simp
    | cons c r ih =>
      intro n k hk
      apply ih
      rw [mem_keys_add]
      rw [List.map_cons, List.mem_cons] at hk
      rcases hk with (hk | hk) | hk
      · exact .inr (.inl hk)
      · exact .inl hk
      · exact .inr (.inr hk)
  exact hfold bindings _ _ (.inl (List.mem_map_of_mem hb))

/-- A type has a model exactly if it is bound to one. -/
theorem Plan.model?_eq_none_iff {s : Schema} {bindings : Bindings} {type : String} :
    (Plan.of s bindings).model? type = none ↔ type ∉ bindings.map (·.1) := by
  rw [← isSome_get?_iff]
  show ((Keyed.get? type bindings).bind fun b =>
    Keyed.get? b.key (Model.nameModels (usedNames s) bindings)) = none ↔ _
  cases hb : Keyed.get? type bindings with
  | none => simp
  | some b =>
    have hkey := isSome_get?_iff.2 (key_mem_nameModels (usedNames s) (Keyed.mem_of_get? hb))
    rw [Option.isSome_iff_ne_none] at hkey
    simpa using hkey

/-! ## What is generated -/

namespace IsNameClass

variable {P : String → Prop} (hP : IsNameClass P)

include hP

theorem scalarType (lang : Language) (scalar : String) : P (lang.scalarType scalar) := by
  unfold Language.scalarType
  split <;> exact hP.name (by decide)

theorem rootParent (lang : Language) : P lang.rootParent := by
  cases lang <;> exact hP.name (by decide)

theorem freshName (used : List String) {name : String} (h : P name) :
    P (Model.freshName used name) := by
  fun_induction Model.freshName used name with
  | case1 used name _ ih => exact ih (hP.append h (hP.name (by decide)))
  | case2 => exact h

theorem nameModels (used : List String) {bindings : Bindings} (h : ∀ b ∈ bindings, P b.2.name) :
    LocalsHaveNames P (Model.nameModels used bindings) := by
  intro p hp
  obtain ⟨b, hb, hkey, taken, hlocal⟩ := exists_binding_of_mem_nameModels hp
  rw [hkey, hlocal]
  exact ⟨h b hb, hP.freshName taken (h b hb)⟩

theorem dataType (lang : Language) {t : TypeUse} (h : IsName t.name) :
    P (dataType lang t).base := by
  unfold Code.dataType
  split_ifs
  · exact hP.scalarType lang t.name
  · exact hP.name h

theorem fieldMembers (lang : Language) {fields : List Field} (h : ∀ f ∈ fields, f.IsNamed) :
    ∀ m ∈ fieldMembers lang fields, m.HasNames P := by
  intro m hm
  obtain ⟨f, hf, rfl⟩ := List.mem_map.1 hm
  exact ⟨hP.name (h f hf).name, hP.dataType lang (h f hf).type⟩

theorem ownResolver (lang : Language) (p : Plan) {f : Field} (h : f.IsNamed) :
    (Resolver.ofField lang p f).HasOwnNames P := by
  refine ⟨hP.name h.name, hP.capital h.name, fun m hm => ?_⟩
  obtain ⟨a, ha, rfl⟩ := List.mem_map.1 hm
  obtain ⟨hname, htype⟩ := h.arguments a ha
  exact ⟨hP.name hname, hP.dataType lang htype⟩

theorem ownGroup (lang : Language) (p : Plan) {t : ObjectType} (ht : IsName t.name)
    (hfields : ∀ f ∈ t.fields, f.IsNamed) : (ResolverGroup.ofType lang p t).HasOwnNames P := by
  refine ⟨hP.name ht, fun n hn => ?_, fun r hr => ?_⟩
  · simp only [ResolverGroup.ofType] at hn
    split_ifs at hn
    · cases hn
    · obtain ⟨f, hf, rfl⟩ := List.mem_map.1 hn
      exact hP.name (hfields f (List.mem_of_mem_filter hf)).name
  · obtain ⟨f, hf, rfl⟩ := List.mem_map.1 hr
    exact hP.ownResolver lang p (hfields f hf)

variable {p : Plan} (hp : LocalsHaveNames P p.locals)

omit hP in
include hp in
theorem model {type model : String} (h : p.model? type = some model) : P model := by
  obtain ⟨key, hkey⟩ := Plan.exists_key_of_model? h
  exact (hp _ hkey).2

include hp

theorem parent {root : String} {t : ObjectType}
    (hroot : t.isRoot = true → p.model? t.name = none → P root) (ht : IsName t.name) :
    P (p.parent root t) := by
  unfold Plan.parent
  split
  · next name hm => exact model hp hm
  · next hm =>
    split_ifs with h
    · exact hroot h hm
    · exact hP.name ht

theorem resultType (lang : Language) {t : TypeUse} (h : IsName t.name) :
    P (resultType lang p t).base := by
  unfold Code.resultType
  split
  · exact hP.scalarType lang t.name
  · cases hm : p.model? t.name with
    | none => exact hP.name h
    | some name => exact model hp hm
  · exact hP.name h

theorem resolverGroup (lang : Language) {t : ObjectType} (ht : IsName t.name)
    (hfields : ∀ f ∈ t.fields, f.IsNamed) : (ResolverGroup.ofType lang p t).HasNames P := by
  obtain ⟨htype, hdelegated, hresolvers⟩ := hP.ownGroup lang p ht hfields
  have hparent := hP.parent hp (fun _ _ => hP.rootParent lang) ht
  refine ⟨htype, hparent, hdelegated, fun r hr => ⟨hresolvers r hr, ?_⟩⟩
  obtain ⟨f, hf, rfl⟩ := List.mem_map.1 hr
  exact hP.resultType hp lang (hfields f hf).type

end IsNameClass

section

variable {P : String → Prop} (hP : IsNameClass P) (lang : Language) (path : String) {s : Schema}
  (hs : s.IsNamed) {bindings : Bindings}

include hP hs

/-- Whatever the models are called, all other names in a types file are of the class. -/
theorem TypesFile.ofPlan_hasOwnNames :
    (TypesFile.ofPlan lang path (.of s bindings)).HasOwnNames P := by
  refine ⟨?_, ?_, ?_, ?_⟩
  · intro c hc
    obtain ⟨e, he, rfl⟩ := List.mem_map.1 hc
    obtain ⟨hname, hvalues⟩ := hs.enums e he
    refine ⟨hP.name hname, fun o ho => ?_⟩
    obtain ⟨v, hv, rfl⟩ := List.mem_map.1 ho
    exact .inr ⟨v, hP.name (hvalues v hv), rfl⟩
  · intro c hc
    obtain ⟨u, hu, rfl⟩ := List.mem_map.1 hc
    obtain ⟨hname, hmembers⟩ := hs.unions u hu
    exact ⟨hP.name hname, fun m hm => .inl (hP.name (hmembers m hm))⟩
  · intro r hr
    rcases List.mem_append.1 hr with hr | hr
    · obtain ⟨t, ht, rfl⟩ := List.mem_map.1 hr
      obtain ⟨hname, hfields⟩ := hs.inputs t ht
      exact ⟨hP.name hname, hP.fieldMembers lang hfields⟩
    · obtain ⟨t, ht, rfl⟩ := List.mem_map.1 hr
      obtain ⟨hname, hfields⟩ := hs.types t ht
      exact ⟨hP.name hname, hP.fieldMembers lang hfields⟩
  · intro g hg
    obtain ⟨t, ht, rfl⟩ := List.mem_map.1 hg
    obtain ⟨hname, hfields⟩ := hs.types t (List.mem_of_mem_filter ht)
    exact hP.ownGroup lang _ hname hfields

/-- The names of a types file are of the class that those of the models are of. -/
theorem TypesFile.ofPlan_hasNames (hb : ∀ b ∈ bindings, P b.2.name) :
    (TypesFile.ofPlan lang path (.of s bindings)).HasNames P := by
  have hlocals : LocalsHaveNames P (Plan.of s bindings).locals := hP.nameModels _ hb
  obtain ⟨henums, hunions, hrecords, -⟩ := ofPlan_hasOwnNames hP lang path hs
  refine ⟨fun g hg i hi => hlocals _ (mem_importGroups hg hi), henums, hunions, hrecords, ?_⟩
  intro g hg
  obtain ⟨t, ht, rfl⟩ := List.mem_map.1 hg
  obtain ⟨hname, hfields⟩ := hs.types t (List.mem_of_mem_filter ht)
  exact hP.resolverGroup hlocals lang hname hfields

end

end ResolverKit.Code
