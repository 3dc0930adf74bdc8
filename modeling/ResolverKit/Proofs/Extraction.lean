import ResolverKit.Proofs.Judges
import ResolverKit.Proofs.Merged

/-!
# Which documents are schemas

The extraction of a schema is judged step by step, from the use of a type up to the whole
document.  The result is that it fails exactly on the documents that break a rule, with the label
of a declaration that does (`ofDocument_error_iff`).
-/

namespace ResolverKit.Schema

open Sdl (TypeKind TypeRef TypeShape FieldDef InputValue Definition Document StringLit)

variable {kinds : Kinds}

/-! ## Uses of types -/

/-- The type cannot be used: it is nested, or its name is not known. -/
def Unsupported (kinds : Kinds) (ref : TypeRef) : Prop :=
  IsNested ref ∨ ref.base ∉ kinds.map (·.1) ∧ ref.base ∉ builtinScalars

/-- The label is that of a use that cannot be. -/
def UseFault (kinds : Kinds) (uses : List (String × TypeRef)) (label : String) : Prop :=
  ∃ ref, (label, ref) ∈ uses ∧ Unsupported kinds ref

theorem kindOf_judges (declaration name : String) :
    Judges (fun label => label = declaration ∧ name ∉ kinds.map (·.1) ∧ name ∉ builtinScalars)
      ((kinds.lookup name).getD .scalar) (kindOf kinds declaration name) := by
  unfold kindOf
  cases hk : kinds.lookup name with
  | some kind =>
    refine .pass fun label hl => hl.2.1 ?_
    have hs : (kinds.lookup name).isSome = true := by rw [hk]; rfl
    simpa using hs
  | none =>
    by_cases hb : name ∈ builtinScalars
    · show Judges _ _ (if builtinScalars.contains name then _ else _)
      rw [if_pos (by simpa using hb)]
      exact .pass fun label hl => hl.2.2 hb
    · show Judges _ _ (if builtinScalars.contains name then _ else _)
      rw [if_neg (by simpa using hb)]
      refine .fail ⟨rfl, fun hn => ?_, hb⟩
      have hs : (kinds.lookup name).isSome = true := by simpa using hn
      rw [hk] at hs
      cases hs

theorem ofRef_judges (declaration : String) (ref : TypeRef) :
    Judges (fun label => label = declaration ∧ Unsupported kinds ref) (useOf kinds ref)
      (TypeUse.ofRef kinds declaration ref) := by
  cases ref with
  | named name required =>
    refine Judges.congr ((kindOf_judges declaration name).bind_ok rfl) fun label => ?_
    simp [Unsupported, IsNested, TypeRef.base]
  | list item required =>
    cases item with
    | named name itemRequired =>
      refine Judges.congr ((kindOf_judges declaration name).bind_ok rfl) fun label => ?_
      simp [Unsupported, IsNested, TypeRef.base]
    | list item itemRequired => exact .fail ⟨rfl, .inl trivial⟩

theorem argument_judges (declaration : String) (v : InputValue) :
    Judges (fun label => label = declaration ++ "(" ++ v.name ++ ")" ∧ Unsupported kinds v.type)
      (argumentOf kinds v) (Argument.ofDef kinds declaration v) :=
  (ofRef_judges _ v.type).bind_ok rfl

theorem field_judges (owner : String) (f : FieldDef) :
    Judges (UseFault kinds (fieldUses owner f)) (fieldOf kinds f) (Field.ofDef kinds owner f) := by
  have hargument : ∀ v ∈ f.arguments, Judges _ (argumentOf kinds v)
      (Argument.ofDef kinds (owner ++ "." ++ f.name) v) := fun v _ => argument_judges _ v
  refine Judges.congr ((Judges.mapM hargument).bind fun _ =>
    (ofRef_judges _ f.type).bind_ok rfl) fun label => ?_
  unfold UseFault fieldUses
  constructor
  · rintro (⟨v, hv, rfl, hun⟩ | ⟨rfl, hun⟩)
    · exact ⟨v.type, List.mem_append_left _ (List.mem_map.2 ⟨v, hv, rfl⟩), hun⟩
    · exact ⟨f.type, by simp, hun⟩
  · rintro ⟨ref, hm, hun⟩
    rcases List.mem_append.1 hm with hm | hm
    · obtain ⟨v, hv, h⟩ := List.mem_map.1 hm
      cases h
      exact .inl ⟨v, hv, rfl, hun⟩
    · cases List.mem_singleton.1 hm
      exact .inr ⟨rfl, hun⟩

theorem fields_judge (owner : String) (fields : List FieldDef) :
    Judges (UseFault kinds (fields.flatMap (fieldUses owner))) (fields.map (fieldOf kinds))
      (fields.mapM (Field.ofDef kinds owner)) := by
  refine Judges.congr (Judges.mapM fun f _ => field_judges owner f) fun label => ?_
  unfold UseFault
  constructor
  · rintro ⟨f, hf, ref, hm, hun⟩
    exact ⟨ref, List.mem_flatMap.2 ⟨f, hf, hm⟩, hun⟩
  · rintro ⟨ref, hm, hun⟩
    obtain ⟨f, hf, hm⟩ := List.mem_flatMap.1 hm
    exact ⟨f, hf, ref, hm, hun⟩

theorem inputFields_judge (owner : String) (fields : List InputValue) :
    Judges (UseFault kinds (fields.map (inputUse owner))) (fields.map (inputFieldOf kinds))
      (fields.mapM (Field.ofInput kinds owner)) := by
  have hfield : ∀ v ∈ fields, Judges (fun label => label = owner ++ "." ++ v.name ∧
      Unsupported kinds v.type) (inputFieldOf kinds v) (Field.ofInput kinds owner v) :=
    fun v _ => (ofRef_judges _ v.type).bind_ok rfl
  refine Judges.congr (Judges.mapM hfield) fun label => ?_
  unfold UseFault
  constructor
  · rintro ⟨v, hv, rfl, hun⟩
    exact ⟨v.type, List.mem_map.2 ⟨v, hv, rfl⟩, hun⟩
  · rintro ⟨ref, hm, hun⟩
    obtain ⟨v, hv, h⟩ := List.mem_map.1 hm
    cases h
    exact ⟨v, hv, rfl, hun⟩

theorem unionMembers_judges (union : String) (members : List String) :
    Judges (fun label => label = union ∧ ∃ m ∈ members, kinds.lookup m ≠ some .object) members
      (unionMembers kinds union members) := by
  have hmember : ∀ m ∈ members, Judges (fun label => label = union ∧
      kinds.lookup m ≠ some .object) m (if kinds.lookup m = some .object then .ok m
        else .error (.notAnObject union m)) := by
    intro m _
    split
    · next hm => exact .pass fun label hl => hl.2 hm
    · next hm => exact .fail ⟨rfl, hm⟩
  have hall := Judges.mapM hmember
  rw [List.map_id'] at hall
  refine hall.congr fun label => ?_
  constructor
  · rintro ⟨m, hm, rfl, hobject⟩
    exact ⟨rfl, m, hm, hobject⟩
  · rintro ⟨rfl, m, hm, hobject⟩
    exact ⟨m, hm, rfl, hobject⟩

/-! ## Definitions -/

/-- The label is that of a fault inside a definition or an extension. -/
def PartFault (kinds : Kinds) (name : String) (shape : TypeShape) (label : String) : Prop :=
  UseFault kinds (shapeUses name shape) label ∨
    label = name ∧ ∃ m ∈ unionNames shape, kinds.lookup m ≠ some .object

theorem gather_nil {α : Type} (list : TypeShape → List α) (name : String) (shape : TypeShape) :
    gather list [] name shape = list shape := by
  simp [gather, extensionsOf]

theorem gatherInterfaces_nil (name : String) (shape : TypeShape) :
    gatherInterfaces [] name shape = shapeInterfaces shape := by
  simp [gatherInterfaces, extensionsOf, List.removeAll]

theorem ofDefinition_judges (description : Option StringLit) (name : String) (shape : TypeShape) :
    Judges (PartFault kinds name shape) (mergedEntry kinds [] description name shape)
      (Entry.ofDefinition kinds description name shape) := by
  unfold mergedEntry
  simp only [gather_nil, gatherInterfaces_nil]
  have hnone : ∀ label, ¬ UseFault kinds [] label := by
    rintro label ⟨ref, hm, -⟩
    cases hm
  cases shape with
  | scalar => exact .pass (by simp [PartFault, shapeUses, unionNames, hnone])
  | enum values => exact .pass (by simp [PartFault, shapeUses, unionNames, hnone])
  | object interfaces fields =>
    refine Judges.congr ((fields_judge name fields).bind_ok rfl) fun label => ?_
    simp [PartFault, shapeUses, unionNames]
  | interface interfaces fields =>
    refine Judges.congr ((fields_judge name fields).bind_ok rfl) fun label => ?_
    simp [PartFault, shapeUses, unionNames]
  | union members =>
    refine Judges.congr ((unionMembers_judges name members).bind_ok rfl) fun label => ?_
    simp [PartFault, shapeUses, unionNames, hnone]
  | input fields =>
    refine Judges.congr ((inputFields_judge name fields).bind_ok rfl) fun label => ?_
    simp [PartFault, shapeUses, unionNames]

theorem definitions_cons (x : Definition) (d : Document) :
    definitions (x :: d) = (definition? x).toList ++ definitions d := by
  cases x <;> rfl

theorem entries_judge (d : Document) :
    Judges (fun label => ∃ name shape, (name, shape) ∈ definitions d ∧
      PartFault kinds name shape label) (mergedEntries kinds [] d) (entries kinds d) := by
  induction d with
  | nil => exact .pass (by simp [definitions])
  | cons x r ih =>
    cases x with
    | type description name directives shape =>
      refine Judges.congr ((ofDefinition_judges description name shape).bind fun _ =>
        ih.bind_ok rfl) fun label => ?_
      simp only [definitions_cons, definition?, Option.toList_some, List.singleton_append,
        List.mem_cons, Prod.mk.injEq]
      constructor
      · rintro (hl | ⟨name', shape', hm, hl⟩)
        · exact ⟨name, shape, .inl ⟨rfl, rfl⟩, hl⟩
        · exact ⟨name', shape', .inr hm, hl⟩
      · rintro ⟨name', shape', ⟨rfl, rfl⟩ | hm, hl⟩
        · exact .inl hl
        · exact .inr ⟨name', shape', hm, hl⟩
    | _ => exact ih

/-! ## Kinds -/

theorem exists_executable_cons {x : Definition} {d : Document} {label : String}
    (h : executableLabel? x = none) :
    (∃ y ∈ x :: d, executableLabel? y = some label) ↔ ∃ y ∈ d, executableLabel? y = some label := by
  simp [h]

/-- Collecting the kinds fails at operations and fragments and at names that come again. -/
theorem collectKinds_judges (d : Document) (known : Kinds) (hknown : (known.map (·.1)).Nodup) :
    Judges (fun label => (∃ x ∈ d, executableLabel? x = some label) ∨
      List.Duplicate label (known.map (·.1) ++ typeNames d)) (known ++ declared d)
      (collectKinds known d) := by
  induction d generalizing known with
  | nil =>
    have hnone := List.nodup_iff_forall_not_duplicate.1 hknown
    rw [show known ++ declared [] = known by simp [declared, definitions]]
    exact .pass (by simpa [typeNames, declared, definitions] using hnone)
  | cons x r ih =>
    cases x with
    | operation description kind name vars directives selections =>
      exact .fail (.inl ⟨_, List.mem_cons_self, rfl⟩)
    | fragment description name on directives selections =>
      exact .fail (.inl ⟨_, List.mem_cons_self, rfl⟩)
    | type description name directives shape =>
      have hdeclared : declared (.type description name directives shape :: r) =
          (name, shape.kind) :: declared r := rfl
      have hnames : typeNames (.type description name directives shape :: r) =
          name :: typeNames r := rfl
      rw [hnames, hdeclared]
      show Judges _ _ (if (known.lookup name).isSome then .error (.declaredTwice name)
        else collectKinds (known ++ [(name, shape.kind)]) r)
      by_cases hk : name ∈ known.map (·.1)
      · rw [if_pos (by simpa using hk)]
        refine .fail (.inr (List.duplicate_iff_sublist.2 ?_))
        exact (List.singleton_sublist.2 hk).append
          (List.singleton_sublist.2 List.mem_cons_self)
      · rw [if_neg (by simpa using hk)]
        have hnodup : ((known ++ [(name, shape.kind)]).map (·.1)).Nodup := by
          rw [List.map_append, List.nodup_append]
          refine ⟨hknown, by simp, ?_⟩
          intro a ha b hb hab
          obtain rfl : b = name := by simpa using hb
          exact hk (hab ▸ ha)
        have hrest := ih _ hnodup
        rw [List.append_assoc, List.singleton_append] at hrest
        refine hrest.congr fun label => ?_
        rw [exists_executable_cons rfl, List.map_append, List.append_assoc]
        rfl
    | _ =>
      refine Judges.congr (ih known hknown) fun label => ?_
      rw [exists_executable_cons rfl]
      rfl

/-! ## Extensions -/

/-- The label is that of a field of `shape` that one of these parts of the type declares before. -/
def Redeclared (parts : List (String × TypeShape)) (name : String) (shape : TypeShape)
    (label : String) : Prop :=
  ∃ field ∈ fieldNames shape, label = name ++ "." ++ field ∧
    ∃ earlier, (name, earlier) ∈ parts ∧ field ∈ fieldNames earlier

/-- The label is that of a fault of an extension: it stands alone, there is a fault inside it, or
it declares a field again. -/
def ExtensionFault (kinds : Kinds) (declared : Kinds) (parts : List (String × TypeShape))
    (name : String) (shape : TypeShape) (label : String) : Prop :=
  (label = "extend " ++ name ∧ (name, shape.kind) ∉ declared) ∨
    PartFault kinds name shape label ∨ Redeclared parts name shape label

theorem map_name_shapeFields (kinds : Kinds) (shape : TypeShape) :
    (shapeFields kinds shape).map (·.name) = fieldNames shape := by
  cases shape <;> simp [shapeFields, fieldNames, fieldOf, inputFieldOf]

/-- The fields of an entry come from its definition and the extensions of its name. -/
theorem mem_map_name_gather {exts : List (String × TypeShape)} {name field : String}
    {base : TypeShape} :
    field ∈ (gather (shapeFields kinds) exts name base).map (·.name) ↔
      ∃ earlier, (name, earlier) ∈ (name, base) :: exts ∧ field ∈ fieldNames earlier := by
  simp only [← map_name_shapeFields kinds, List.mem_map, mem_gather]
  constructor
  · rintro ⟨f, ⟨shape, hs, hf⟩, rfl⟩
    exact ⟨shape, hs, f, hf, rfl⟩
  · rintro ⟨shape, hs, f, hf, rfl⟩
    exact ⟨f, ⟨shape, hs, hf⟩, rfl⟩

theorem addFields_judges (owner : String) (old new : List Field) :
    Judges (fun label => ∃ field ∈ new.map (·.name), label = owner ++ "." ++ field ∧
      field ∈ old.map (·.name)) (old ++ new) (addFields owner old new) := by
  unfold addFields
  cases hf : new.find? fun f => old.any (·.name = f.name) with
  | some f =>
    refine .fail ⟨f.name, List.mem_map.2 ⟨f, List.mem_of_find?_eq_some hf, rfl⟩, rfl, ?_⟩
    have hany := List.find?_some hf
    simpa using hany
  | none =>
    refine .pass ?_
    rintro label ⟨field, hnew, -, hold⟩
    obtain ⟨f, hf', rfl⟩ := List.mem_map.1 hnew
    obtain ⟨f', hm, hname⟩ := List.mem_map.1 hold
    have hall := List.find?_eq_none.1 hf f hf'
    refine hall (List.any_eq_true.2 ⟨f', hm, ?_⟩)
    simpa using hname

/-- Adding the fields of an extension to those that are gathered so far. -/
theorem addShape_judges {exts : List (String × TypeShape)} {name : String}
    {base shape : TypeShape} {new : Except ExtractionError (List Field)}
    (hnew : Judges (UseFault kinds (shapeUses name shape)) (shapeFields kinds shape) new)
    (hplain : unionNames shape = []) :
    Judges (fun label => PartFault kinds name shape label ∨
        Redeclared ((name, base) :: exts) name shape label)
      (gather (shapeFields kinds) (exts ++ [(name, shape)]) name base)
      (new >>= addFields name (gather (shapeFields kinds) exts name base)) := by
  rw [gather_append]
  refine Judges.congr (hnew.bind fun _ => addFields_judges name _ _) fun label => ?_
  rw [map_name_shapeFields]
  simp only [mem_map_name_gather, PartFault, Redeclared, hplain, List.not_mem_nil, false_and,
    exists_false, and_false, or_false]

/-- An extension of an object type or an interface adds its fields and then its interfaces. -/
theorem objectType_extend_judges {exts : List (String × TypeShape)} {name : String}
    {base shape : TypeShape} {interfaces : List String} {fields : List FieldDef}
    (hshape : shape = .object interfaces fields ∨ shape = .interface interfaces fields)
    (isInterface : Bool) (description : Option String) :
    Judges (fun label => PartFault kinds name shape label ∨
        Redeclared ((name, base) :: exts) name shape label)
      (⟨name, isInterface, gather (shapeFields kinds) (exts ++ [(name, shape)]) name base,
        gatherInterfaces (exts ++ [(name, shape)]) name base, description⟩ : ObjectType)
      (ObjectType.extend kinds ⟨name, isInterface, gather (shapeFields kinds) exts name base,
        gatherInterfaces exts name base, description⟩ interfaces fields) := by
  have hextend : ∀ t : ObjectType, t.extend kinds interfaces fields =
      (fields.mapM (Field.ofDef kinds t.name) >>= addFields t.name t.fields) >>= fun fields =>
        pure { t with fields, implements := addInterfaces t.implements interfaces } :=
    fun t => (bind_assoc _ _ _).symm
  rw [hextend, ← addInterfaces_gatherInterfaces]
  rcases hshape with rfl | rfl
  · exact (addShape_judges (fields_judge name fields) rfl).bind_ok rfl
  · exact (addShape_judges (fields_judge name fields) rfl).bind_ok rfl

/-- An extension of another kind is refused. -/
theorem extend_of_kind_ne {exts : List (String × TypeShape)} {description : Option StringLit}
    {name : String} {base shape : TypeShape} (h : base.kind ≠ shape.kind) :
    (mergedEntry kinds exts description name base).extend kinds shape =
      .error (.undeclaredExtension name) := by
  cases base <;> cases shape <;> first | rfl | exact absurd rfl h

/-- An extension turns an entry into that of the definition with one extension more. -/
theorem extend_judges {exts : List (String × TypeShape)} {description : Option StringLit}
    {name : String} {base shape : TypeShape} (hscalar : shape.kind ≠ .scalar) :
    Judges (ExtensionFault kinds [(name, base.kind)] ((name, base) :: exts) name shape)
      (mergedEntry kinds (exts ++ [(name, shape)]) description name base)
      ((mergedEntry kinds exts description name base).extend kinds shape) := by
  by_cases hkind : base.kind = shape.kind
  case neg =>
    rw [extend_of_kind_ne hkind]
    refine .fail (.inl ⟨rfl, fun hm => hkind ?_⟩)
    simpa [eq_comm] using hm
  -- the extension is of the right kind, so that only the faults of its parts remain
  have hfaults : ∀ label, (PartFault kinds name shape label ∨
      Redeclared ((name, base) :: exts) name shape label) ↔
      ExtensionFault kinds [(name, base.kind)] ((name, base) :: exts) name shape label := by
    intro label
    simp [ExtensionFault, hkind]
  refine Judges.congr ?_ hfaults
  cases base with
  | scalar => exact absurd hkind.symm hscalar
  | object interfaces fields =>
    cases shape with
    | object interfaces' fields' =>
      show Judges _ (Entry.type _) (Entry.type <$> ObjectType.extend kinds _ interfaces' fields')
      exact (objectType_extend_judges (.inl rfl) _ _).map
    | _ => cases hkind
  | interface interfaces fields =>
    cases shape with
    | interface interfaces' fields' =>
      show Judges _ (Entry.type _) (Entry.type <$> ObjectType.extend kinds _ interfaces' fields')
      exact (objectType_extend_judges (.inr rfl) _ _).map
    | _ => cases hkind
  | input fields =>
    cases shape with
    | input fields' =>
      show Judges _ _ (fields'.mapM (Field.ofInput kinds name) >>= fun new =>
        addFields name (gather (shapeFields kinds) exts name (.input fields)) new >>= fun fields =>
          pure (Entry.input ⟨name, fields, descriptionText description⟩))
      rw [← bind_assoc]
      exact (addShape_judges (inputFields_judge name fields') rfl).bind_ok rfl
    | _ => cases hkind
  | enum values =>
    cases shape with
    | enum values' =>
      show Judges _ (Entry.enum ⟨name, gather shapeValues _ name _, _⟩)
        (.ok (Entry.enum ⟨name, gather shapeValues exts name _ ++ shapeValues (.enum values'), _⟩))
      rw [gather_append]
      refine .pass ?_
      simp [PartFault, UseFault, Redeclared, shapeUses, unionNames, fieldNames]
    | _ => cases hkind
  | union members =>
    cases shape with
    | union members' =>
      show Judges _ (Entry.union ⟨name, gather unionNames _ name _, _⟩) _
      rw [gather_append]
      refine Judges.congr ((unionMembers_judges name members').bind_ok rfl) fun label => ?_
      simp [PartFault, UseFault, Redeclared, shapeUses, unionNames, fieldNames]
    | _ => cases hkind

/-! ## Extensions of a document -/

theorem not_mem_definitions {d : Document} {name : String} (h : name ∉ typeNames d)
    (shape : TypeShape) : (name, shape) ∉ definitions d := by
  intro hm
  refine h (List.mem_map.2 ⟨(name, shape.kind), ?_, rfl⟩)
  exact mem_declared.2 ⟨shape, hm, rfl⟩

theorem mergedEntries_of_not_mem {exts : List (String × TypeShape)} {name : String}
    {shape : TypeShape} {d : Document} (h : name ∉ typeNames d) :
    mergedEntries kinds (exts ++ [(name, shape)]) d = mergedEntries kinds exts d := by
  induction d with
  | nil => rfl
  | cons x r ih =>
    cases x with
    | type description name' directives base =>
      have hnames : typeNames (.type description name' directives base :: r) =
          name' :: typeNames r := rfl
      rw [hnames, List.mem_cons, not_or] at h
      show mergedEntry kinds _ description name' base :: mergedEntries kinds _ r =
        mergedEntry kinds exts description name' base :: mergedEntries kinds exts r
      rw [mergedEntry_of_ne h.1, ih h.2]
    | _ => exact ih h

theorem extendEntry_judges {exts : List (String × TypeShape)} {name : String} {shape : TypeShape}
    (hscalar : shape.kind ≠ .scalar) {d : Document} (hd : (typeNames d).Nodup) :
    Judges (ExtensionFault kinds (declared d) (definitions d ++ exts) name shape)
      (mergedEntries kinds (exts ++ [(name, shape)]) d)
      (extendEntry kinds name shape (mergedEntries kinds exts d)) := by
  induction d with
  | nil => exact .fail (.inl ⟨rfl, by simp [declared, definitions]⟩)
  | cons x r ih =>
    cases x with
    | type description name' directives base =>
      have hnames : typeNames (.type description name' directives base :: r) =
          name' :: typeNames r := rfl
      rw [hnames, List.nodup_cons] at hd
      show Judges (ExtensionFault kinds ((name', base.kind) :: declared r)
          ((name', base) :: definitions r ++ exts) name shape)
        (mergedEntry kinds (exts ++ [(name, shape)]) description name' base ::
          mergedEntries kinds (exts ++ [(name, shape)]) r)
        (extendEntry kinds name shape
          (mergedEntry kinds exts description name' base :: mergedEntries kinds exts r))
      rw [extendEntry, mergedEntry_name]
      by_cases hn : name' = name
      · subst hn
        rw [if_pos rfl, mergedEntries_of_not_mem hd.1]
        refine Judges.congr ((extend_judges hscalar).bind_ok rfl) fun label => ?_
        have hrest : ∀ kind, (name', kind) ∉ declared r := by
          intro kind hm
          exact hd.1 (List.mem_map.2 ⟨_, hm, rfl⟩)
        simp [ExtensionFault, Redeclared, hrest, not_mem_definitions hd.1]
      · rw [if_neg hn, mergedEntry_of_ne (Ne.symm hn)]
        refine Judges.congr ((ih hd.2).bind_ok rfl) fun label => ?_
        simp [ExtensionFault, Redeclared, Ne.symm hn]
    | _ => exact ih hd

/-- The label is that of a fault of one of these extensions, where `exts` come before them. -/
def ExtensionsFault (kinds : Kinds) (d : Document) (exts pending : List (String × TypeShape))
    (label : String) : Prop :=
  ∃ before name shape behind, pending = before ++ (name, shape) :: behind ∧
    shape.kind ≠ .scalar ∧
    ExtensionFault kinds (declared d) (definitions d ++ (exts ++ before)) name shape label

theorem extensionsFault_cons {d : Document} {exts pending : List (String × TypeShape)}
    {name : String} {shape : TypeShape} {label : String} :
    ExtensionsFault kinds d exts ((name, shape) :: pending) label ↔
      (shape.kind ≠ .scalar ∧
        ExtensionFault kinds (declared d) (definitions d ++ exts) name shape label) ∨
      ExtensionsFault kinds d (exts ++ [(name, shape)]) pending label := by
  constructor
  · rintro ⟨before, name', shape', behind, heq, hscalar, hl⟩
    cases before with
    | nil =>
      rw [List.nil_append] at heq
      cases heq
      rw [List.append_nil] at hl
      exact .inl ⟨hscalar, hl⟩
    | cons p before =>
      rw [List.cons_append] at heq
      cases heq
      rw [show exts ++ (name, shape) :: before = exts ++ [(name, shape)] ++ before by simp] at hl
      exact .inr ⟨before, name', shape', behind, rfl, hscalar, hl⟩
  · rintro (⟨hscalar, hl⟩ | ⟨before, name', shape', behind, rfl, hscalar, hl⟩)
    · rw [← List.append_nil exts] at hl
      exact ⟨[], name, shape, pending, rfl, hscalar, hl⟩
    · rw [List.append_assoc, List.singleton_append] at hl
      exact ⟨(name, shape) :: before, name', shape', behind, rfl, hscalar, hl⟩

theorem mergedEntries_scalar (exts : List (String × TypeShape)) (name : String) (d : Document) :
    mergedEntries kinds (exts ++ [(name, .scalar)]) d = mergedEntries kinds exts d := by
  unfold mergedEntries
  simp only [mergedEntry_scalar]

theorem eq_scalar_of_kind {shape : TypeShape} (h : shape.kind = .scalar) : shape = .scalar := by
  cases shape with
  | scalar => rfl
  | _ => cases h

/-- The induction is on the rest of the document; `exts` are the extensions in front of it, which
the entries hold already. -/
theorem extendEntries_judges {d : Document} (hd : (typeNames d).Nodup) (rest : Document)
    (exts : List (String × TypeShape)) :
    Judges (ExtensionsFault kinds d exts (extensions rest))
      (mergedEntries kinds (exts ++ extensions rest) d)
      (extendEntries kinds (mergedEntries kinds exts d) rest) := by
  induction rest generalizing exts with
  | nil =>
    rw [show extensions [] = [] from rfl, List.append_nil]
    refine .pass ?_
    rintro label ⟨before, name, shape, behind, heq, -⟩
    simp at heq
  | cons x r ih =>
    cases x with
    | extendType name directives shape =>
      have hext : extensions (.extendType name directives shape :: r) =
          (name, shape) :: extensions r := rfl
      have hrest := ih (exts ++ [(name, shape)])
      rw [List.append_assoc, List.singleton_append] at hrest
      rw [hext]
      show Judges _ _ (if shape.kind = .scalar then extendEntries kinds _ r
        else extendEntry kinds name shape (mergedEntries kinds exts d) >>= fun es =>
          extendEntries kinds es r)
      by_cases hscalar : shape.kind = .scalar
      · rw [if_pos hscalar]
        obtain rfl := eq_scalar_of_kind hscalar
        rw [mergedEntries_scalar] at hrest
        refine hrest.congr fun label => ?_
        rw [extensionsFault_cons]
        simp [hscalar]
      · rw [if_neg hscalar]
        refine Judges.congr ((extendEntry_judges hscalar hd).bind fun _ => hrest) fun label => ?_
        rw [extensionsFault_cons]
        simp [hscalar]
    | _ => exact ih exts

/-! ## Whole documents -/

theorem executable_violation {d : Document} {x : Definition} {label : String} (hx : x ∈ d)
    (h : executableLabel? x = some label) : Violation d label := by
  cases x with
  | operation description kind name vars directives selections =>
    cases h
    exact .operation hx
  | fragment description name on directives selections =>
    cases h
    exact .fragment hx
  | _ => cases h

/-- A fault inside a definition or an extension breaks a rule. -/
theorem PartFault.violation {d : Document} (hd : (typeNames d).Nodup) {name : String}
    {shape : TypeShape} (hm : (name, shape) ∈ definitions d ++ extensions d) {label : String}
    (h : PartFault (declared d) name shape label) : Violation d label := by
  rcases h with ⟨ref, hu, hnested | ⟨hnames, hbuiltin⟩⟩ | ⟨rfl, m, hmember, hobject⟩
  · exact .nestedList hm hu hnested
  · exact .unknownType hm hu hnames hbuiltin
  · exact .notAnObject hm hmember (mt (lookup_eq_some_iff_mem hd).2 hobject)

theorem ExtensionsFault.violation {d : Document} (hd : (typeNames d).Nodup) {label : String}
    (h : ExtensionsFault (declared d) d [] (extensions d) label) : Violation d label := by
  obtain ⟨before, name, shape, behind, heq, hscalar, hl⟩ := h
  have hm : (name, shape) ∈ extensions d := by simp [heq]
  rcases hl with ⟨rfl, hstray⟩ | hpart | ⟨field, hfield, rfl, earlier, he, hfield'⟩
  · exact .strayExtension hm hscalar hstray
  · exact hpart.violation hd (List.mem_append_right _ hm)
  · exact .fieldDeclaredTwice heq hfield he hfield'

/-- A fault inside a definition or an extension is found where that is read. -/
theorem fault_of_partFault {d : Document} {name : String} {shape : TypeShape} {label : String}
    (hm : (name, shape) ∈ definitions d ++ extensions d)
    (h : PartFault (declared d) name shape label) :
    (∃ name shape, (name, shape) ∈ definitions d ∧ PartFault (declared d) name shape label) ∨
      ExtensionsFault (declared d) d [] (extensions d) label := by
  rcases List.mem_append.1 hm with hm | hm
  · exact .inl ⟨name, shape, hm, h⟩
  · obtain ⟨before, behind, heq⟩ := List.append_of_mem hm
    refine .inr ⟨before, name, shape, behind, heq, fun hscalar => ?_, .inr (.inl h)⟩
    obtain rfl := eq_scalar_of_kind hscalar
    rcases h with ⟨ref, hu, -⟩ | ⟨-, m, hmember, -⟩
    · cases hu
    · cases hmember

/-- Without operations, fragments and repeated names, the faults are those of the other rules. -/
theorem ofKinds_judges {d : Document} (hplain : ∀ x ∈ d, executableLabel? x = none)
    (hd : (typeNames d).Nodup) :
    Judges (Violation d) (merged d) (entries (declared d) d >>= fun es =>
      extendEntries (declared d) es d >>= fun es => pure (ofEntries es)) := by
  rw [← ofEntries_mergedEntries]
  refine Judges.weaken ((entries_judge d).bind fun _ =>
    (extendEntries_judges hd d []).bind_ok rfl) ?_ ?_
  · rintro label (⟨name, shape, hm, hl⟩ | hl)
    · exact hl.violation hd (List.mem_append_left _ hm)
    · exact hl.violation hd
  · rintro label hl
    cases hl with
    | operation hx => cases hplain _ hx
    | fragment hx => cases hplain _ hx
    | definedTwice h => exact absurd h (List.nodup_iff_forall_not_duplicate.1 hd _)
    | nestedList hm hu hnested =>
      exact ⟨_, fault_of_partFault hm (.inl ⟨_, hu, .inl hnested⟩)⟩
    | unknownType hm hu hnames hbuiltin =>
      exact ⟨_, fault_of_partFault hm (.inl ⟨_, hu, .inr ⟨hnames, hbuiltin⟩⟩)⟩
    | notAnObject hm hmember hobject =>
      have hlookup := mt (lookup_eq_some_iff_mem hd).1 hobject
      exact ⟨_, fault_of_partFault hm (.inr ⟨rfl, _, hmember, hlookup⟩)⟩
    | strayExtension hm hscalar hstray =>
      obtain ⟨before, behind, heq⟩ := List.append_of_mem hm
      exact ⟨_, .inr ⟨before, _, _, behind, heq, hscalar, .inl ⟨rfl, hstray⟩⟩⟩
    | fieldDeclaredTwice heq hfield he hfield' =>
      refine ⟨_, .inr ⟨_, _, _, _, heq, ?_, .inr (.inr ⟨_, hfield, rfl, _, he, hfield'⟩)⟩⟩
      intro hscalar
      rw [eq_scalar_of_kind hscalar] at hfield
      cases hfield

/-- The faults that extracting the schema finds are the declarations that break a rule. -/
theorem ofDocument_judges (d : Document) : Judges (Violation d) (merged d) (ofDocument d) := by
  have hkinds := collectKinds_judges d [] List.nodup_nil
  rw [List.nil_append] at hkinds
  unfold ofDocument
  refine Judges.congr (hkinds.bind fun hnone => ofKinds_judges
    (fun x hx => Option.eq_none_iff_forall_ne_some.2 fun label h => hnone label (.inl ⟨x, hx, h⟩))
    (List.nodup_iff_forall_not_duplicate.2 fun name h => hnone name (.inr h))) fun label => ?_
  constructor
  · rintro ((⟨x, hx, h⟩ | h) | hl)
    · exact executable_violation hx h
    · exact .definedTwice h
    · exact hl
  · exact .inr

/-- A document is refused exactly if it breaks a rule, and the error names a declaration that
does. -/
theorem ofDocument_error_iff (d : Document) :
    ((∃ e, ofDocument d = .error e) ↔ ∃ label, Violation d label) ∧
      ∀ e, ofDocument d = .error e → Violation d e.declaration := by
  have h := ofDocument_judges d
  refine ⟨h.exists_error_iff, fun e he => ?_⟩
  rw [he] at h
  cases h with
  | fail hl => exact hl

end ResolverKit.Schema
