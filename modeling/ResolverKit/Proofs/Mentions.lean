import ResolverKit.Sdl.Document

/-!
# Where a definition mentions a type

`Definition.Mentions n x` says that the name `n` stands in the definition `x` at one of the places
where the grammar has a type: behind a field, an argument, an input field or a variable under any
lists and exclamation marks, among interfaces and members, as the condition of a fragment or as
the type of an operation.  `Definition.references` lists exactly these names:

    n ∈ x.references ↔ x.Mentions n                                  (Definition.mem_references_iff)
-/

namespace ResolverKit.Sdl

/-! ## Places of types -/

/-- The name stands under any number of lists and exclamation marks. -/
inductive TypeRef.Mentions (n : String) : TypeRef → Prop
  | named (required : Bool) : Mentions n (.named n required)
  | list {item : TypeRef} (required : Bool) : Mentions n item → Mentions n (.list item required)

/-- A field mentions the types of its values and of its arguments. -/
inductive FieldDef.Mentions (n : String) (f : FieldDef) : Prop
  | type : f.type.Mentions n → Mentions n f
  | argument {a : InputValue} : a ∈ f.arguments → a.type.Mentions n → Mentions n f

/-- A type mentions its interfaces or members, and what its fields mention. -/
inductive TypeShape.Mentions (n : String) : TypeShape → Prop
  | objectInterface {is : List String} {fs : List FieldDef} : n ∈ is → Mentions n (.object is fs)
  | objectField {is : List String} {fs : List FieldDef} {f : FieldDef} :
      f ∈ fs → f.Mentions n → Mentions n (.object is fs)
  | interfaceInterface {is : List String} {fs : List FieldDef} :
      n ∈ is → Mentions n (.interface is fs)
  | interfaceField {is : List String} {fs : List FieldDef} {f : FieldDef} :
      f ∈ fs → f.Mentions n → Mentions n (.interface is fs)
  | member {ms : List String} : n ∈ ms → Mentions n (.union ms)
  | inputField {fs : List InputValue} {f : InputValue} :
      f ∈ fs → f.type.Mentions n → Mentions n (.input fs)

/-- A selection mentions the types on which fragments in it depend. -/
inductive Selection.Mentions (n : String) : Selection → Prop
  | nested {alias? : Option String} {name : String} {args : List Argument} {ds : List Directive}
      {ss : List Selection} {s : Selection} :
      s ∈ ss → Mentions n s → Mentions n (.field alias? name args ds (some ss))
  | condition {ds : List Directive} {ss : List Selection} : Mentions n (.inline (some n) ds ss)
  | inside {on? : Option String} {ds : List Directive} {ss : List Selection} {s : Selection} :
      s ∈ ss → Mentions n s → Mentions n (.inline on? ds ss)

/-- The places of types in a definition or an extension. -/
inductive Definition.Mentions (n : String) : Definition → Prop
  | ofVariable {doc kind name vars ds ss} {v : VariableDef} :
      v ∈ vars → v.type.Mentions n → Mentions n (.operation doc kind name vars ds ss)
  | selected {doc kind name vars ds ss} {s : Selection} :
      s ∈ ss → s.Mentions n → Mentions n (.operation doc kind name vars ds ss)
  | fragmentCondition {doc name ds ss} : Mentions n (.fragment doc name n ds ss)
  | fragmentSelected {doc name on ds ss} {s : Selection} :
      s ∈ ss → s.Mentions n → Mentions n (.fragment doc name on ds ss)
  | operationType {doc ds operations} {kind : OperationKind} :
      (kind, n) ∈ operations → Mentions n (.schema doc ds operations)
  | extendedOperationType {ds operations} {kind : OperationKind} :
      (kind, n) ∈ operations → Mentions n (.extendSchema ds operations)
  | shape {doc name ds} {shape : TypeShape} :
      shape.Mentions n → Mentions n (.type doc name ds shape)
  | extendedShape {name ds} {shape : TypeShape} :
      shape.Mentions n → Mentions n (.extendType name ds shape)
  | directiveArgument {doc name args ds repeatable locations} {a : InputValue} :
      a ∈ args → a.type.Mentions n → Mentions n (.directive doc name args ds repeatable locations)

/-! ## The lists of references -/

theorem TypeRef.eq_base_iff {n : String} {t : TypeRef} : n = t.base ↔ t.Mentions n := by
  induction t with
  | named name required =>
    constructor
    · rintro rfl
      exact .named required
    · rintro ⟨⟩
      rfl
  | list item required ih =>
    constructor
    · exact fun h => .list required (ih.1 h)
    · intro h
      cases h with
      | list _ h => exact ih.2 h

theorem FieldDef.mem_references_iff {n : String} {f : FieldDef} :
    n ∈ f.references ↔ f.Mentions n := by
  rw [references, List.mem_cons, List.mem_map]
  constructor
  · rintro (h | ⟨a, ha, rfl⟩)
    · exact .type (TypeRef.eq_base_iff.1 h)
    · exact .argument ha (TypeRef.eq_base_iff.1 rfl)
  · rintro (h | ⟨ha, h⟩)
    · exact .inl (TypeRef.eq_base_iff.2 h)
    · exact .inr ⟨_, ha, (TypeRef.eq_base_iff.2 h).symm⟩

theorem TypeShape.mem_references_iff {n : String} {s : TypeShape} :
    n ∈ s.references ↔ s.Mentions n := by
  cases s with
  | scalar => exact iff_of_false List.not_mem_nil nofun
  | object is fs =>
    rw [references, List.mem_append, List.mem_flatMap]
    constructor
    · rintro (h | ⟨f, hf, h⟩)
      · exact .objectInterface h
      · exact .objectField hf (FieldDef.mem_references_iff.1 h)
    · intro h
      cases h with
      | objectInterface h => exact .inl h
      | objectField hf h => exact .inr ⟨_, hf, FieldDef.mem_references_iff.2 h⟩
  | interface is fs =>
    rw [references, List.mem_append, List.mem_flatMap]
    constructor
    · rintro (h | ⟨f, hf, h⟩)
      · exact .interfaceInterface h
      · exact .interfaceField hf (FieldDef.mem_references_iff.1 h)
    · intro h
      cases h with
      | interfaceInterface h => exact .inl h
      | interfaceField hf h => exact .inr ⟨_, hf, FieldDef.mem_references_iff.2 h⟩
  | union ms =>
    constructor
    · exact .member
    · intro h
      cases h with
      | member h => exact h
  | enum vs => exact iff_of_false List.not_mem_nil nofun
  | input fs =>
    rw [references, List.mem_map]
    constructor
    · rintro ⟨f, hf, rfl⟩
      exact .inputField hf (TypeRef.eq_base_iff.1 rfl)
    · intro h
      cases h with
      | inputField hf h => exact ⟨_, hf, (TypeRef.eq_base_iff.2 h).symm⟩

mutual

theorem Selection.mem_references_iff {n : String} : (s : Selection) →
    (n ∈ s.references ↔ s.Mentions n)
  | .field alias? name args ds none => iff_of_false List.not_mem_nil nofun
  | .field alias? name args ds (some ss) => by
    rw [Selection.references, mem_selectionReferences_iff ss]
    constructor
    · rintro ⟨s, hs, h⟩
      exact .nested hs h
    · intro h
      cases h with
      | nested hs h => exact ⟨_, hs, h⟩
  | .spread name ds => iff_of_false List.not_mem_nil nofun
  | .inline on? ds ss => by
    rw [Selection.references, List.mem_append, mem_selectionReferences_iff ss, Option.mem_toList]
    constructor
    · rintro (rfl | ⟨s, hs, h⟩)
      · exact .condition
      · exact .inside hs h
    · intro h
      cases h with
      | condition => exact .inl rfl
      | inside hs h => exact .inr ⟨_, hs, h⟩

theorem mem_selectionReferences_iff {n : String} : (ss : List Selection) →
    (n ∈ selectionReferences ss ↔ ∃ s ∈ ss, s.Mentions n)
  | [] => by simp [selectionReferences]
  | s :: r => by
    rw [selectionReferences, List.mem_append, Selection.mem_references_iff s,
      mem_selectionReferences_iff r]
    simp

end

/-- The references of a definition are the names at its places of types. -/
theorem Definition.mem_references_iff {n : String} {x : Definition} :
    n ∈ x.references ↔ x.Mentions n := by
  cases x with
  | operation doc kind name vars ds ss =>
    rw [references, List.mem_append, List.mem_map, mem_selectionReferences_iff]
    constructor
    · rintro (⟨v, hv, rfl⟩ | ⟨s, hs, h⟩)
      · exact .ofVariable hv (TypeRef.eq_base_iff.1 rfl)
      · exact .selected hs h
    · intro h
      cases h with
      | ofVariable hv h => exact .inl ⟨_, hv, (TypeRef.eq_base_iff.2 h).symm⟩
      | selected hs h => exact .inr ⟨_, hs, h⟩
  | fragment doc name on ds ss =>
    rw [references, List.mem_cons, mem_selectionReferences_iff]
    constructor
    · rintro (rfl | ⟨s, hs, h⟩)
      · exact .fragmentCondition
      · exact .fragmentSelected hs h
    · intro h
      cases h with
      | fragmentCondition => exact .inl rfl
      | fragmentSelected hs h => exact .inr ⟨_, hs, h⟩
  | schema doc ds operations =>
    rw [references, List.mem_map]
    constructor
    · rintro ⟨⟨kind, name⟩, h, rfl⟩
      exact .operationType h
    · intro h
      cases h with
      | operationType h => exact ⟨_, h, rfl⟩
  | extendSchema ds operations =>
    rw [references, List.mem_map]
    constructor
    · rintro ⟨⟨kind, name⟩, h, rfl⟩
      exact .extendedOperationType h
    · intro h
      cases h with
      | extendedOperationType h => exact ⟨_, h, rfl⟩
  | type doc name ds shape =>
    rw [references, TypeShape.mem_references_iff]
    constructor
    · exact .shape
    · intro h
      cases h with
      | shape h => exact h
  | extendType name ds shape =>
    rw [references, TypeShape.mem_references_iff]
    constructor
    · exact .extendedShape
    · intro h
      cases h with
      | extendedShape h => exact h
  | directive doc name args ds repeatable locations =>
    rw [references, List.mem_map]
    constructor
    · rintro ⟨a, ha, rfl⟩
      exact .directiveArgument ha (TypeRef.eq_base_iff.1 rfl)
    · intro h
      cases h with
      | directiveArgument ha h => exact ⟨_, ha, (TypeRef.eq_base_iff.2 h).symm⟩
  | extendDirective name ds => exact iff_of_false List.not_mem_nil nofun

end ResolverKit.Sdl
