import ResolverKit.Proofs.Extraction

/-!
# What an accepted document becomes

A document that breaks no rule becomes its merged document, and the rules carry over to the
schema: no two entries have the same name, every use of a type records the kind of its
definition, and the members of unions are object types of the schema (`ofDocument_eq_merged`).
-/

namespace ResolverKit.Schema

open Sdl (TypeKind TypeRef TypeShape FieldDef InputValue Definition Document)

/-! ## Names -/

def entryNames (s : Schema) : List String :=
  s.types.map (·.name) ++ s.enums.map (·.name) ++ s.unions.map (·.name) ++
    s.inputs.map (·.name) ++ s.scalars.map (·.name)

theorem entryNames_ofEntries (es : List Entry) :
    (entryNames (ofEntries es)).Perm (es.map (·.name)) := by
  rw [List.perm_iff_count]
  intro name
  unfold entryNames ofEntries
  induction es with
  | nil => rfl
  | cons e r ih =>
    simp only [List.count_append, Entry.name] at ih ⊢
    cases e <;> simp only [List.filterMap_cons, List.map_cons, List.count_cons] <;> omega

theorem map_name_mergedEntries (kinds : Kinds) (exts : List (String × TypeShape)) (d : Document) :
    (mergedEntries kinds exts d).map (·.name) = typeNames d := by
  induction d with
  | nil => rfl
  | cons x r ih =>
    cases x with
    | type description name directives shape =>
      show (mergedEntry kinds exts description name shape).name :: _ = name :: typeNames r
      rw [mergedEntry_name]
      exact congrArg _ ih
    | _ => exact ih

/-- The entries of the merged document are named as the types that the document defines. -/
theorem entryNames_merged (d : Document) : (entryNames (merged d)).Perm (typeNames d) := by
  rw [← ofEntries_mergedEntries, ← map_name_mergedEntries (declared d) (extensions d)]
  exact entryNames_ofEntries _

/-! ## Uses of types -/

/-- The uses of types at a field and its arguments. -/
def Field.uses (f : Field) : List TypeUse := f.type :: f.arguments.map (·.type)

/-- The uses of types at all fields and arguments of a schema. -/
def typeUses (s : Schema) : List TypeUse :=
  (s.types.flatMap (·.fields) ++ s.inputs.flatMap (·.fields)).flatMap Field.uses

/-- The uses at a field that a definition or an extension lists are those it writes. -/
theorem exists_ref_of_mem_uses {kinds : Kinds} (owner : String) {shape : TypeShape} {f : Field}
    {u : TypeUse} (hf : f ∈ shapeFields kinds shape) (hu : u ∈ f.uses) :
    ∃ label ref, (label, ref) ∈ shapeUses owner shape ∧ u = useOf kinds ref := by
  have hfield : ∀ fields : List FieldDef, f ∈ fields.map (fieldOf kinds) →
      ∃ label ref, (label, ref) ∈ fields.flatMap (fieldUses owner) ∧ u = useOf kinds ref := by
    intro fields hf
    obtain ⟨g, hg, rfl⟩ := List.mem_map.1 hf
    rcases List.mem_cons.1 hu with rfl | hu
    · exact ⟨_, _, List.mem_flatMap.2 ⟨g, hg, List.mem_append_right _ (.head _)⟩, rfl⟩
    · obtain ⟨a, ha, rfl⟩ := List.mem_map.1 hu
      obtain ⟨v, hv, rfl⟩ := List.mem_map.1 ha
      exact ⟨_, _, List.mem_flatMap.2 ⟨g, hg, List.mem_append_left _
        (List.mem_map.2 ⟨v, hv, rfl⟩)⟩, rfl⟩
  cases shape with
  | object interfaces fields => exact hfield fields hf
  | interface interfaces fields => exact hfield fields hf
  | input fields =>
    obtain ⟨v, hv, rfl⟩ := List.mem_map.1 hf
    obtain rfl := List.mem_singleton.1 hu
    exact ⟨_, _, List.mem_map.2 ⟨v, hv, rfl⟩, rfl⟩
  | _ => cases hf

/-- Every field of the merged document is gathered for one of its definitions. -/
theorem exists_gather_of_mem_fields {d : Document} {f : Field}
    (hf : f ∈ (merged d).types.flatMap (·.fields) ++ (merged d).inputs.flatMap (·.fields)) :
    ∃ name base, (name, base) ∈ definitions d ∧
      f ∈ gather (shapeFields (declared d)) (extensions d) name base := by
  rcases List.mem_append.1 hf with hf | hf
  · obtain ⟨t, ht, hf⟩ := List.mem_flatMap.1 hf
    obtain ⟨x, hx, hxt⟩ := List.mem_filterMap.1 ht
    cases x with
    | type description name directives base =>
      refine ⟨name, base, mem_definitions.2 ⟨_, _, hx⟩, ?_⟩
      cases base <;> cases hxt <;> exact hf
    | _ => cases hxt
  · obtain ⟨t, ht, hf⟩ := List.mem_flatMap.1 hf
    obtain ⟨x, hx, hxt⟩ := List.mem_filterMap.1 ht
    cases x with
    | type description name directives base =>
      refine ⟨name, base, mem_definitions.2 ⟨_, _, hx⟩, ?_⟩
      cases base <;> cases hxt
      exact hf
    | _ => cases hxt

/-- What is gathered for a definition stands in some part of the document. -/
theorem exists_part_of_mem_gather {α : Type} {list : TypeShape → List α} {d : Document}
    {name : String} {base : TypeShape} {x : α} (hbase : (name, base) ∈ definitions d)
    (hx : x ∈ gather list (extensions d) name base) :
    ∃ shape, (name, shape) ∈ definitions d ++ extensions d ∧ x ∈ list shape := by
  obtain ⟨shape, hs, hx⟩ := mem_gather.1 hx
  refine ⟨shape, ?_, hx⟩
  rcases List.mem_cons.1 hs with hs | hs
  · rw [hs]
    exact List.mem_append_left _ hbase
  · exact List.mem_append_right _ hs

/-- The kind that a use records is that of the definition, or a scalar that every schema has. -/
theorem useOf_kind {d : Document} {ref : TypeRef} (hd : (typeNames d).Nodup)
    (href : ref.base ∈ typeNames d ∨ ref.base ∈ builtinScalars) :
    ((useOf (declared d) ref).name, (useOf (declared d) ref).kind) ∈ declared d ∨
      (useOf (declared d) ref).name ∉ typeNames d ∧
        (useOf (declared d) ref).name ∈ builtinScalars ∧
        (useOf (declared d) ref).kind = .scalar := by
  by_cases hname : ref.base ∈ typeNames d
  · left
    obtain ⟨⟨name, kind⟩, hm, rfl⟩ := List.mem_map.1 hname
    have hlookup := (lookup_eq_some_iff_mem hd).2 hm
    simpa [useOf, hlookup] using hm
  · right
    refine ⟨hname, href.resolve_left hname, ?_⟩
    have hlookup : (declared d).lookup ref.base = none := by
      cases hl : (declared d).lookup ref.base with
      | none => rfl
      | some kind => exact absurd (List.mem_map_of_mem ((lookup_eq_some_iff_mem hd).1 hl)) hname
    simp [useOf, hlookup]

theorem kind_of_mem_typeUses {d : Document} (hnone : ∀ label, ¬ Violation d label) {u : TypeUse}
    (hu : u ∈ typeUses (merged d)) :
    (u.name, u.kind) ∈ declared d ∨
      u.name ∉ typeNames d ∧ u.name ∈ builtinScalars ∧ u.kind = .scalar := by
  have hd : (typeNames d).Nodup :=
    List.nodup_iff_forall_not_duplicate.2 fun name h => hnone name (.definedTwice h)
  obtain ⟨f, hf, hu⟩ := List.mem_flatMap.1 hu
  obtain ⟨name, base, hbase, hf⟩ := exists_gather_of_mem_fields hf
  obtain ⟨shape, hs, hf⟩ := exists_part_of_mem_gather hbase hf
  obtain ⟨label, ref, href, rfl⟩ := exists_ref_of_mem_uses name hf hu
  refine useOf_kind hd ?_
  by_cases hname : ref.base ∈ typeNames d
  · exact .inl hname
  · right
    by_contra hbuiltin
    exact hnone label (.unknownType hs href hname hbuiltin)

/-! ## Members of unions -/

/-- An object type that the document defines is an entry of the merged document. -/
theorem exists_type_of_mem_declared {d : Document} {name : String}
    (h : (name, .object) ∈ declared d) :
    ∃ t ∈ (merged d).types, t.name = name ∧ t.isInterface = false := by
  obtain ⟨shape, hs, hkind⟩ := mem_declared.1 h
  obtain ⟨description, directives, hx⟩ := mem_definitions.1 hs
  cases shape with
  | object interfaces fields => exact ⟨_, List.mem_filterMap.2 ⟨_, hx, rfl⟩, rfl, rfl⟩
  | _ => cases hkind

theorem type_of_mem_members {d : Document} (hnone : ∀ label, ¬ Violation d label) {u : UnionType}
    (hu : u ∈ (merged d).unions) {m : String} (hm : m ∈ u.members) :
    ∃ t ∈ (merged d).types, t.name = m ∧ t.isInterface = false := by
  obtain ⟨x, hx, hxu⟩ := List.mem_filterMap.1 hu
  cases x with
  | type description name directives base =>
    have hgather : m ∈ gather unionNames (extensions d) name base := by
      cases base <;> cases hxu
      exact hm
    obtain ⟨shape, hs, hm⟩ := exists_part_of_mem_gather (mem_definitions.2 ⟨_, _, hx⟩) hgather
    apply exists_type_of_mem_declared
    by_contra hobject
    exact hnone name (.notAnObject hs hm hobject)
  | _ => cases hxu

/-! ## Accepted documents -/

/-- The schema of an accepted document is its merged document, in which no two entries have the
same name, every use of a type records the kind of its definition, and every member of a union is
an object type. -/
theorem ofDocument_eq_merged {d : Document} {s : Schema} (h : ofDocument d = .ok s) :
    s = merged d ∧ (entryNames s).Nodup ∧
      (∀ u ∈ typeUses s, (u.name, u.kind) ∈ declared d ∨
        u.name ∉ typeNames d ∧ u.name ∈ builtinScalars ∧ u.kind = .scalar) ∧
      ∀ u ∈ s.unions, ∀ m ∈ u.members, ∃ t ∈ s.types, t.name = m ∧ t.isInterface = false := by
  have hj := ofDocument_judges d
  rw [h] at hj
  cases hj with
  | pass hnone =>
    refine ⟨rfl, ?_, fun u hu => kind_of_mem_typeUses hnone hu,
      fun u hu m hm => type_of_mem_members hnone hu hm⟩
    rw [(entryNames_merged d).nodup_iff, List.nodup_iff_forall_not_duplicate]
    exact fun name hname => hnone name (.definedTwice hname)

/-- A document with an extension in front of the definition it belongs to. -/
def extendedDocument : Document :=
  [.extendType "Query" [] (.object ["Node"] [⟨none, "color", [], .named "Color" false, []⟩]),
   .type none "Query" [] (.object []
     [⟨none, "find", [⟨none, "id", .named "ID" true, none, []⟩],
      .list (.named "Hit" true) false, []⟩]),
   .type none "Hit" [] (.union ["Query"]),
   .type none "Color" [] (.enum [⟨none, "RED", []⟩]),
   .extendType "Color" [] (.enum [⟨none, "BLUE", []⟩])]

def extendedSchema : Schema where
  types := [⟨"Query", false,
    [⟨"find", ⟨"Hit", .union, .many true, false⟩,
      [⟨"id", ⟨"ID", .scalar, .one, true⟩, .null⟩], none⟩,
     ⟨"color", ⟨"Color", .enum, .one, false⟩, [], none⟩],
    ["Node"], none⟩]
  enums := [⟨"Color", ["RED", "BLUE"], none⟩]
  unions := [⟨"Hit", ["Query"], none⟩]
  inputs := []
  scalars := []

theorem ofDocument_extendedDocument :
    ofDocument extendedDocument = .ok extendedSchema ∧
      extendedSchema = merged extendedDocument ∧ (entryNames extendedSchema).Nodup ∧
      (∀ u ∈ typeUses extendedSchema, (u.name, u.kind) ∈ declared extendedDocument ∨
        u.name ∉ typeNames extendedDocument ∧ u.name ∈ builtinScalars ∧ u.kind = .scalar) ∧
      ∀ u ∈ extendedSchema.unions, ∀ m ∈ u.members,
        ∃ t ∈ extendedSchema.types, t.name = m ∧ t.isInterface = false :=
  ⟨rfl, ofDocument_eq_merged rfl⟩

end ResolverKit.Schema
