import Mathlib.Data.List.Nodup
import ResolverKit.Proofs.Names

/-!
# Fields of one name

No extension declares a field that the definition or an earlier extension declares.  So two fields
of one name in a type of an accepted document come from the same definition or from the same
extension, and there nothing keeps them out (`ofDocument_repeatedDocument`):

    ofDocument d = .ok s → (name, names) ∈ fieldLists s →
      (names.Nodup ↔ ∀ shape, (name, shape) ∈ definitions d ++ extensions d →
        (fieldNames shape).Nodup)                                          (nodup_fields_iff)
-/

namespace ResolverKit.Schema

open Sdl (TypeShape FieldDef InputValue Document)

/-- The object types, interfaces and input types of a schema with the names of their fields. -/
def fieldLists (s : Schema) : List (String × List String) :=
  s.types.map (fun t => (t.name, t.fields.map (·.name))) ++
    s.inputs.map fun t => (t.name, t.fields.map (·.name))

/-! ## Fields of a type -/

theorem map_name_gather (kinds : Kinds) (exts : List (String × TypeShape)) (name : String)
    (base : TypeShape) :
    (gather (shapeFields kinds) exts name base).map (·.name) =
      (base :: extensionsOf exts name).flatMap fieldNames := by
  simp only [gather, List.map_append, List.map_flatMap, map_name_shapeFields, List.flatMap_cons]

/-- The fields of an object type or an interface are gathered for its definition. -/
theorem exists_gather_of_mem_types {d : Document} {t : ObjectType} (ht : t ∈ (merged d).types) :
    ∃ base, (t.name, base) ∈ definitions d ∧
      t.fields = gather (shapeFields (declared d)) (extensions d) t.name base := by
  obtain ⟨x, hx, hxt⟩ := List.mem_filterMap.1 ht
  cases x with
  | type description name directives base =>
    refine ⟨base, ?_⟩
    cases base <;> cases hxt <;> exact ⟨mem_definitions.2 ⟨_, _, hx⟩, rfl⟩
  | _ => cases hxt

/-- The fields of an input type are gathered for its definition. -/
theorem exists_gather_of_mem_inputs {d : Document} {t : InputType} (ht : t ∈ (merged d).inputs) :
    ∃ base, (t.name, base) ∈ definitions d ∧
      t.fields = gather (shapeFields (declared d)) (extensions d) t.name base := by
  obtain ⟨x, hx, hxt⟩ := List.mem_filterMap.1 ht
  cases x with
  | type description name directives base =>
    refine ⟨base, ?_⟩
    cases base <;> cases hxt
    exact ⟨mem_definitions.2 ⟨_, _, hx⟩, rfl⟩
  | _ => cases hxt

/-- The names of the fields of a type are those of its definition and of its extensions. -/
theorem exists_base_of_mem_fieldLists {d : Document} {name : String} {names : List String}
    (h : (name, names) ∈ fieldLists (merged d)) :
    ∃ base, (name, base) ∈ definitions d ∧
      names = (base :: extensionsOf (extensions d) name).flatMap fieldNames := by
  rcases List.mem_append.1 h with h | h
  · obtain ⟨t, ht, heq⟩ := List.mem_map.1 h
    obtain ⟨rfl, rfl⟩ := Prod.mk.inj heq
    obtain ⟨base, hbase, hfields⟩ := exists_gather_of_mem_types ht
    exact ⟨base, hbase, by rw [hfields, map_name_gather]⟩
  · obtain ⟨t, ht, heq⟩ := List.mem_map.1 h
    obtain ⟨rfl, rfl⟩ := Prod.mk.inj heq
    obtain ⟨base, hbase, hfields⟩ := exists_gather_of_mem_inputs ht
    exact ⟨base, hbase, by rw [hfields, map_name_gather]⟩

/-! ## Fields of different origin -/

/-- A relation holds between all elements of a list if it holds to those in front of each. -/
theorem pairwise_of_forall_front {α : Type} {R : α → α → Prop} {l : List α}
    (h : ∀ before x behind, l = before ++ x :: behind → ∀ y ∈ before, R y x) : l.Pairwise R := by
  rw [List.pairwise_iff_getElem]
  intro i j hi hj hij
  refine h (l.take j) l[j] (l.drop (j + 1)) (by simp) l[i] ?_
  exact List.mem_take_iff_getElem.2 ⟨i, by omega, rfl⟩

/-- Two extensions of one type declare no field in common. -/
theorem pairwise_extensionsOf {d : Document} (hnone : ∀ label, ¬ Violation d label)
    (name : String) :
    (extensionsOf (extensions d) name).Pairwise (Function.onFun List.Disjoint fieldNames) := by
  unfold extensionsOf
  rw [List.pairwise_filterMap]
  refine pairwise_of_forall_front fun before ext behind hsplit earlier hearlier => ?_
  obtain ⟨n, shape⟩ := ext
  obtain ⟨n', shape'⟩ := earlier
  intro a ha b hb field hfield' hfield
  obtain ⟨rfl, rfl⟩ : n' = name ∧ shape' = a := by simpa using ha
  obtain ⟨rfl, rfl⟩ : n = n' ∧ shape = b := by simpa using hb
  exact hnone _ (.fieldDeclaredTwice hsplit hfield (List.mem_append_right _ hearlier) hfield')

/-- An extension declares no field of the definition. -/
theorem disjoint_of_mem_extensionsOf {d : Document} (hnone : ∀ label, ¬ Violation d label)
    {name : String} {base shape : TypeShape} (hbase : (name, base) ∈ definitions d)
    (hshape : shape ∈ extensionsOf (extensions d) name) :
    List.Disjoint (fieldNames base) (fieldNames shape) := by
  intro field hfield' hfield
  obtain ⟨before, behind, hsplit⟩ := List.append_of_mem (mem_extensionsOf.1 hshape)
  exact hnone _ (.fieldDeclaredTwice hsplit hfield (List.mem_append_left _ hbase) hfield')

/-- No name has two definitions. -/
theorem eq_of_mem_definitions {d : Document} (hd : (typeNames d).Nodup) {name : String}
    {a b : TypeShape} (ha : (name, a) ∈ definitions d) (hb : (name, b) ∈ definitions d) :
    a = b := by
  have hnodup : ((definitions d).map (·.1)).Nodup := by
    simpa [typeNames, declared, Function.comp_def] using hd
  exact congrArg Prod.snd (List.inj_on_of_nodup_map hnodup ha hb rfl)

/-! ## Accepted documents -/

/-- The fields of a type of an accepted document have different names exactly when no definition
and no extension of that type declares two fields of one name. -/
theorem nodup_fields_iff {d : Document} {s : Schema} (h : ofDocument d = .ok s) {name : String}
    {names : List String} (hm : (name, names) ∈ fieldLists s) :
    names.Nodup ↔
      ∀ shape, (name, shape) ∈ definitions d ++ extensions d → (fieldNames shape).Nodup := by
  obtain ⟨rfl, hnone⟩ := merged_of_ofDocument h
  obtain ⟨base, hbase, rfl⟩ := exists_base_of_mem_fieldLists hm
  have hapart : (base :: extensionsOf (extensions d) name).Pairwise
      (Function.onFun List.Disjoint fieldNames) :=
    List.pairwise_cons.2 ⟨fun shape hshape => disjoint_of_mem_extensionsOf hnone hbase hshape,
      pairwise_extensionsOf hnone name⟩
  rw [List.nodup_flatMap, and_iff_left hapart]
  refine forall_congr' fun shape => ?_
  rw [List.mem_cons, List.mem_append, mem_extensionsOf]
  refine imp_congr_left (or_congr_left ⟨?_, ?_⟩)
  · rintro rfl
    exact hbase
  · exact fun hshape => eq_of_mem_definitions (nodup_typeNames hnone) hshape hbase

/-- A document in which a definition and an extension declare fields of one name. -/
def repeatedDocument : Document :=
  [.type none "Query" [] (.object []
     [⟨none, "a", [], .named "String" false, []⟩, ⟨none, "a", [], .named "Int" false, []⟩]),
   .type none "User" [] (.object [] [⟨none, "id", [], .named "ID" true, []⟩]),
   .extendType "User" [] (.object []
     [⟨none, "mail", [], .named "String" false, []⟩, ⟨none, "mail", [], .named "ID" false, []⟩])]

/-- That document is accepted, and its types have fields of one name. -/
theorem ofDocument_repeatedDocument :
    ofDocument repeatedDocument = .ok (merged repeatedDocument) ∧
      ("Query", ["a", "a"]) ∈ fieldLists (merged repeatedDocument) ∧
      ("User", ["id", "mail", "mail"]) ∈ fieldLists (merged repeatedDocument) ∧
      (¬ ∀ shape, ("Query", shape) ∈ definitions repeatedDocument ++ extensions repeatedDocument →
        (fieldNames shape).Nodup) ∧
      ¬ ∀ shape, ("User", shape) ∈ definitions repeatedDocument ++ extensions repeatedDocument →
        (fieldNames shape).Nodup := by
  have hd : ofDocument repeatedDocument = .ok (merged repeatedDocument) := rfl
  have hquery : ("Query", ["a", "a"]) ∈ fieldLists (merged repeatedDocument) := by decide
  have huser : ("User", ["id", "mail", "mail"]) ∈ fieldLists (merged repeatedDocument) := by decide
  exact ⟨hd, hquery, huser, mt (nodup_fields_iff hd hquery).2 (by decide),
    mt (nodup_fields_iff hd huser).2 (by decide)⟩

end ResolverKit.Schema
