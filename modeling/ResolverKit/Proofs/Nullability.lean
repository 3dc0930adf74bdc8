import ResolverKit.Proofs.Distinct
import ResolverKit.Proofs.FileRecords

/-!
# Nullability

The types of members in a types file are those that the schema text writes.  `writtenTypes` lists
the types of a document with the fields and arguments of the definition and of its extensions, as
they are written.  A types file declares one record for each of them, and its members, read back,
have the written types (`members_as_written`): in both languages every list and every exclamation
mark is found again, and only the names of scalars are those of the language.  Arguments have a
record each for the fields of object types, and none for those of interfaces.
-/

namespace ResolverKit.Schema

open Sdl (TypeKind TypeRef TypeShape FieldDef InputValue Definition Document)

/-! ## What a document writes -/

/-- A field as it is written, with the names and the types of its arguments. -/
structure WrittenField where
  name : String
  type : TypeRef
  arguments : List (String × TypeRef)
  deriving DecidableEq, Repr

/-- A type with the fields that its definition and its extensions list. -/
structure WrittenType where
  name : String
  fields : List WrittenField
  deriving DecidableEq, Repr

/-- A field of an object type or an interface. -/
def writtenField (f : FieldDef) : WrittenField :=
  ⟨f.name, f.type, f.arguments.map fun a => (a.name, a.type)⟩

def writtenInput (v : InputValue) : WrittenField := ⟨v.name, v.type, []⟩

/-- The fields that a definition or an extension writes. -/
def shapeWritten : TypeShape → List WrittenField
  | .object _ fields => fields.map writtenField
  | .interface _ fields => fields.map writtenField
  | .input fields => fields.map writtenInput
  | _ => []

/-- The types of these kinds that a document defines, in its order. -/
def writtenTypes (kinds : List TypeKind) (d : Document) : List WrittenType :=
  d.filterMap fun
    | .type _ name _ shape =>
      if kinds.contains shape.kind then some ⟨name, gather shapeWritten (extensions d) name shape⟩
      else none
    | _ => none

/-! ## What a schema keeps of it -/

/-- The type as it is written where it is used. -/
def TypeUse.ref (u : TypeUse) : TypeRef :=
  match u.multiplicity with
  | .one => .named u.name u.required
  | .many itemRequired => .list (.named u.name itemRequired) u.required

def Field.written (f : Field) : WrittenField :=
  ⟨f.name, f.type.ref, f.arguments.map fun a => (a.name, a.type.ref)⟩

def ObjectType.written (t : ObjectType) : WrittenType := ⟨t.name, t.fields.map Field.written⟩

def InputType.written (t : InputType) : WrittenType := ⟨t.name, t.fields.map Field.written⟩

theorem useOf_ref (kinds : Kinds) {ref : TypeRef} (h : ¬ IsNested ref) :
    (useOf kinds ref).ref = ref := by
  match ref with
  | .named name required => rfl
  | .list (.named name itemRequired) required => rfl
  | .list (.list _ _) _ => exact absurd trivial h

theorem map_written_shapeFields (kinds : Kinds) (owner : String) {shape : TypeShape}
    (h : ∀ p ∈ shapeUses owner shape, ¬ IsNested p.2) :
    (shapeFields kinds shape).map Field.written = shapeWritten shape := by
  have hfields : ∀ fields : List FieldDef,
      (∀ p ∈ fields.flatMap (fieldUses owner), ¬ IsNested p.2) →
      (fields.map (fieldOf kinds)).map Field.written = fields.map writtenField := by
    intro fields hflat
    rw [List.map_map]
    refine List.map_congr_left fun f hf => ?_
    have huses : ∀ p ∈ fieldUses owner f, ¬ IsNested p.2 := fun p hp =>
      hflat p (List.mem_flatMap.2 ⟨f, hf, hp⟩)
    have htype := huses _ (List.mem_append_right _ (.head _))
    have harguments : ∀ a ∈ f.arguments, ¬ IsNested a.type := fun a ha =>
      huses _ (List.mem_append_left _ (List.mem_map_of_mem ha))
    simp only [Function.comp_apply, Field.written, fieldOf, writtenField, useOf_ref kinds htype,
      List.map_map, WrittenField.mk.injEq, true_and]
    refine List.map_congr_left fun a ha => ?_
    simp [argumentOf, useOf_ref kinds (harguments a ha)]
  cases shape with
  | object interfaces fields => exact hfields fields h
  | interface interfaces fields => exact hfields fields h
  | input fields =>
    simp only [shapeFields, shapeWritten, List.map_map]
    refine List.map_congr_left fun v hv => ?_
    have htype : ¬ IsNested v.type := h _ (List.mem_map_of_mem hv)
    simp [Field.written, inputFieldOf, writtenInput, useOf_ref kinds htype]
  | _ => rfl

section

variable {d : Document} (hnone : ∀ label, ¬ Violation d label)

include hnone

theorem map_written_gather {name : String} {base : TypeShape}
    (hbase : (name, base) ∈ definitions d) :
    (gather (shapeFields (declared d)) (extensions d) name base).map Field.written =
      gather shapeWritten (extensions d) name base := by
  have hpart : ∀ shape, (name, shape) ∈ definitions d ++ extensions d →
      (shapeFields (declared d) shape).map Field.written = shapeWritten shape := fun shape hs =>
    map_written_shapeFields _ name fun p hp hnested => hnone p.1 (.nestedList hs hp hnested)
  unfold gather
  rw [List.map_append, hpart base (List.mem_append_left _ hbase), List.map_flatMap]
  congr 1
  exact List.flatMap_congr fun shape hs =>
    hpart shape (List.mem_append_right _ (mem_extensionsOf.1 hs))

/-- A collection for the types of these kinds holds the fields that are written. -/
theorem map_written_filterMap {α : Type} {part : Definition → Option α} {written : α → WrittenType}
    {kinds : List TypeKind}
    (htype : ∀ description name directives shape,
      (part (.type description name directives shape)).map written =
        if kinds.contains shape.kind then
          some ⟨name,
            (gather (shapeFields (declared d)) (extensions d) name shape).map Field.written⟩
        else none)
    (hother : ∀ x, definition? x = none → part x = none) :
    (d.filterMap part).map written = writtenTypes kinds d := by
  rw [List.map_filterMap, writtenTypes]
  refine List.filterMap_congr fun x hx => ?_
  cases x with
  | type description name directives shape =>
    rw [htype, map_written_gather hnone (mem_definitions.2 ⟨_, _, hx⟩)]
  | _ =>
    rw [hother _ rfl]
    rfl

theorem map_written_inputs : (merged d).inputs.map InputType.written = writtenTypes [.input] d := by
  refine map_written_filterMap hnone (fun _ _ _ shape => ?_) fun x hx => ?_
  · cases shape <;> rfl
  · cases x <;> first | rfl | cases hx

theorem map_written_types :
    (merged d).types.map ObjectType.written = writtenTypes [.object, .interface] d := by
  refine map_written_filterMap hnone (fun _ _ _ shape => ?_) fun x hx => ?_
  · cases shape <;> rfl
  · cases x <;> first | rfl | cases hx

theorem map_written_objects :
    (merged d).objects.map ObjectType.written = writtenTypes [.object] d := by
  simp only [Schema.objects, merged, List.filter_filterMap]
  refine map_written_filterMap hnone (fun _ _ _ shape => ?_) fun x hx => ?_
  · cases shape <;> rfl
  · cases x <;> first | rfl | cases hx

end

end ResolverKit.Schema

namespace ResolverKit.Code

open Schema (Field ObjectType TypeUse Kinds WrittenField WrittenType writtenTypes declared)
open Sdl (TypeRef Document)

/-! ## What a types file says of it -/

def scalarName (scalar : String) : String :=
  if scalar ∈ ["String", "ID"] then "string"
  else if scalar ∈ ["Int", "Float"] then "number"
  else if scalar = "Boolean" then "boolean"
  else "any"

/-- The name of a type in data: types keep their names, but for scalars. -/
def dataName (kinds : Kinds) (name : String) : String :=
  if (kinds.lookup name).getD .scalar = .scalar then scalarName name else name

/-- A written type with the name that it has in data. -/
def dataRef (kinds : Kinds) : TypeRef → TypeRef
  | .named name required => .named (dataName kinds name) required
  | .list item required => .list (dataRef kinds item) required

def dataRecord (kinds : Kinds) (t : WrittenType) : ReadRecord :=
  ⟨[], t.name, t.fields.map fun f => ⟨f.name, false, some (dataRef kinds f.type)⟩⟩

/-- The members for the arguments of a field: one that may be null may be left out. -/
def writtenArguments (kinds : Kinds) (f : WrittenField) : List ReadMember :=
  f.arguments.map fun (name, ref) => ⟨name, !Schema.isRequired ref, some (dataRef kinds ref)⟩

def argsRecords (lang : Language) (kinds : Kinds) (t : WrittenType) : List ReadRecord :=
  (t.fields.filter (!·.arguments.isEmpty)).map fun f =>
    ⟨lang.groupBlocks t.name, lang.argsName t.name f.name, writtenArguments kinds f⟩

def resolversRecord (lang : Language) (t : WrittenType) : ReadRecord :=
  ⟨lang.groupBlocks t.name, lang.groupName t.name, t.fields.map fun f =>
    ⟨f.name, false, some (.named (lang.resolverName t.name f.name) true)⟩⟩

theorem scalarType_eq (lang : Language) (scalar : String) :
    lang.scalarType scalar = scalarName scalar := by
  unfold Language.scalarType scalarName
  split <;> simp_all

/-- The use records the kind of the definition; a name without one is a scalar. -/
def IsOfKind (kinds : Kinds) (u : TypeUse) : Prop := u.kind = (kinds.lookup u.name).getD .scalar

theorem ref_dataType (lang : Language) {kinds : Kinds} {u : TypeUse} (h : IsOfKind kinds u) :
    (dataType lang u).ref = dataRef kinds u.ref := by
  obtain ⟨name, kind, multiplicity, required⟩ := u
  have hbase : (if kind = .scalar then lang.scalarType name else name) = dataName kinds name := by
    rw [dataName, ← h, scalarType_eq]
  cases multiplicity <;> simp [dataType, TypeExpr.ref, TypeUse.ref, dataRef, hbase]

theorem isRequired_ref (u : TypeUse) : Schema.isRequired u.ref = u.required := by
  obtain ⟨name, kind, _ | itemRequired, required⟩ := u <;> rfl

/-- All uses of types in these fields record the kinds of the definitions. -/
def HaveKinds (kinds : Kinds) (fields : List Field) : Prop :=
  ∀ f ∈ fields, ∀ u ∈ f.uses, IsOfKind kinds u

section

variable {lang : Language} {kinds : Kinds}

theorem reading_fieldMembers {fields : List Field} (h : HaveKinds kinds fields) :
    (fieldMembers lang fields).map Member.reading =
      (fields.map Field.written).map fun f => ⟨f.name, false, some (dataRef kinds f.type)⟩ := by
  simp only [fieldMembers, List.map_map]
  refine List.map_congr_left fun f hf => ?_
  have hkind : IsOfKind kinds f.type := h f hf _ (.head _)
  simp [Member.reading, Field.written, ref_dataType lang hkind]

theorem reading_argumentMembers {f : Field} (h : ∀ u ∈ f.uses, IsOfKind kinds u) :
    (argumentMembers lang f.arguments).map Member.reading = writtenArguments kinds f.written := by
  simp only [argumentMembers, writtenArguments, Field.written, List.map_map]
  refine List.map_congr_left fun a ha => ?_
  have hkind : IsOfKind kinds a.type := h _ (List.mem_cons_of_mem _ (List.mem_map_of_mem ha))
  simp [Member.reading, ref_dataType lang hkind, isRequired_ref]

theorem argumentReadings_ofType (p : Plan) {t : ObjectType} (h : HaveKinds kinds t.fields) :
    argumentReadings lang (.ofType lang p t) (lang.groupBlocks t.name) =
      argsRecords lang kinds t.written := by
  have hfields : ∀ fields, HaveKinds kinds fields →
      ((fields.map (Resolver.ofField lang p)).flatMap fun r =>
        if r.arguments.isEmpty then []
        else [(⟨lang.groupBlocks t.name, lang.argsName t.name r.field,
          r.arguments.map Member.reading⟩ : ReadRecord)]) =
      ((fields.map Field.written).filter (!·.arguments.isEmpty)).map fun f =>
        ⟨lang.groupBlocks t.name, lang.argsName t.name f.name, writtenArguments kinds f⟩ := by
    intro fields hkinds
    induction fields with
    | nil => rfl
    | cons f r ih =>
      have hr := ih fun g hg => hkinds g (by simp [hg])
      have hf := @reading_argumentMembers lang kinds f (hkinds f (by simp))
      rw [List.map_cons, List.flatMap_cons, hr, List.map_cons, List.filter_cons]
      by_cases hempty : f.arguments = []
      · simp [Resolver.ofField, argumentMembers, Field.written, hempty]
      · have hmembers : (argumentMembers lang f.arguments).isEmpty = false := by
          simp [argumentMembers, hempty]
        have hwritten : f.written.arguments.isEmpty = false := by simp [Field.written, hempty]
        simp only [Resolver.ofField, hmembers, hwritten, hf, Bool.false_eq_true, if_false]
        rfl
  exact hfields t.fields h

theorem groupReadings_ofType (p : Plan) {t : ObjectType} (h : HaveKinds kinds t.fields) :
    groupReadings lang (.ofType lang p t) (lang.groupBlocks t.name) =
      argsRecords lang kinds t.written ++ [resolversRecord lang t.written] := by
  rw [groupReadings, argumentReadings_ofType p h]
  congr 2
  simp only [groupReading, resolversRecord, ResolverGroup.ofType, ObjectType.written, List.map_map]
  rfl

/-- The types file of a schema, read back. -/
theorem readings_ofPlan (path : String) {s : Schema} (bindings : Model.Bindings)
    (hinputs : ∀ t ∈ s.inputs, HaveKinds kinds t.fields)
    (htypes : ∀ t ∈ s.types, HaveKinds kinds t.fields) :
    (TypesFile.ofPlan lang path (.of s bindings)).readings lang =
      (s.inputs.map Schema.InputType.written ++ s.types.map ObjectType.written).map
          (dataRecord kinds) ++
        (s.objects.map ObjectType.written).flatMap
          (fun t => argsRecords lang kinds t ++ [resolversRecord lang t]) ++
        [indexReading lang (s.objects.map (·.name))] := by
  have hdata : ∀ (name : String) {fields : List Field}, HaveKinds kinds fields →
      (⟨[], name, (fieldMembers lang fields).map Member.reading⟩ : ReadRecord) =
        dataRecord kinds ⟨name, fields.map Field.written⟩ := by
    intro name fields hfields
    rw [reading_fieldMembers hfields]
    rfl
  simp only [TypesFile.readings, TypesFile.ofPlan, Plan.of, List.map_append, List.map_map,
    List.flatMap_map]
  congr 1
  congr 1
  · congr 1
    · exact List.map_congr_left fun t ht => hdata t.name (hinputs t ht)
    · exact List.map_congr_left fun t ht => hdata t.name (htypes t ht)
  · exact List.flatMap_congr fun t ht =>
      groupReadings_ofType _ (htypes t (List.mem_of_mem_filter ht))

end

/-! ## Accepted schemas -/

theorem isOfKind_of_mem_uses {d : Document} {f : Field}
    (hf : f ∈ (Schema.merged d).types.flatMap (·.fields) ++
      (Schema.merged d).inputs.flatMap (·.fields)) {u : TypeUse} (hu : u ∈ f.uses) :
    IsOfKind (declared d) u := by
  obtain ⟨name, base, hbase, hf⟩ := Schema.exists_gather_of_mem_fields hf
  obtain ⟨shape, -, hf⟩ := Schema.exists_part_of_mem_gather hbase hf
  obtain ⟨label, ref, -, rfl⟩ := Schema.exists_ref_of_mem_uses name hf hu
  rfl

/-- A document with lists, with types that may be null, and with an extension in front. -/
def dayDocument : Document :=
  [.type none "Date" [] .scalar,
   .extendType "Query" [] (.object []
     [⟨none, "days", [⟨none, "limit", .named "Int" false, none, []⟩,
        ⟨none, "filter", .named "Filter" true, none, []⟩],
       .list (.named "Date" false) true, []⟩]),
   .type none "Filter" [] (.input [⟨none, "tags", .list (.named "String" true) false, none, []⟩]),
   .type none "Query" [] (.object [] [⟨none, "today", [], .named "Date" true, []⟩])]

/-- A model whose name is no word. -/
def dayBindings : Model.Bindings := [("Query", ⟨"src/query.ts", "../query", "Root | null"⟩)]

/-- An interface whose field has an argument. -/
def nodeDocument : Document :=
  [.type none "Node" [] (.interface []
    [⟨none, "child", [⟨none, "id", .named "ID" true, none, []⟩], .named "String" false, []⟩])]

end ResolverKit.Code
