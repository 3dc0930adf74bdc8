import ResolverKit.Proofs.Mentions
import ResolverKit.Proofs.Reordered

/-!
# References that are checked

The definition of a type refers to other types in three roles: as the types of values, which stand
behind fields, arguments and input fields, as members of a union, and as interfaces.  These are all
the places where it mentions a name (`TypeShape.mentions_iff_refers`).

A value or a member that an accepted document refers to is declared.  Nothing is known about the
interfaces: whatever is written there, the document is accepted (`ofDocument_leaves_interfaces`).
So the references of an accepted document are all declared exactly if those to interfaces are.
-/

namespace ResolverKit.Sdl

/-! ## Roles -/

/-- The roles in which a type refers to another one. -/
inductive Role
  | value | member | interface
  deriving DecidableEq, Repr

/-- The name stands in the definition of a type in this role. -/
inductive TypeShape.Refers (n : String) : Role → TypeShape → Prop
  | objectInterface {is : List String} {fs : List FieldDef} :
      n ∈ is → Refers n .interface (.object is fs)
  | objectField {is : List String} {fs : List FieldDef} {f : FieldDef} :
      f ∈ fs → f.Mentions n → Refers n .value (.object is fs)
  | interfaceInterface {is : List String} {fs : List FieldDef} :
      n ∈ is → Refers n .interface (.interface is fs)
  | interfaceField {is : List String} {fs : List FieldDef} {f : FieldDef} :
      f ∈ fs → f.Mentions n → Refers n .value (.interface is fs)
  | inputField {fs : List InputValue} {f : InputValue} :
      f ∈ fs → f.type.Mentions n → Refers n .value (.input fs)
  | member {ms : List String} : n ∈ ms → Refers n .member (.union ms)

/-- Every mention of a name has a role. -/
theorem TypeShape.mentions_iff_refers {n : String} {shape : TypeShape} :
    shape.Mentions n ↔ ∃ role, shape.Refers n role := by
  constructor
  · intro h
    cases h with
    | objectInterface hn => exact ⟨_, .objectInterface hn⟩
    | objectField hf h => exact ⟨_, .objectField hf h⟩
    | interfaceInterface hn => exact ⟨_, .interfaceInterface hn⟩
    | interfaceField hf h => exact ⟨_, .interfaceField hf h⟩
    | member hn => exact ⟨_, .member hn⟩
    | inputField hf h => exact ⟨_, .inputField hf h⟩
  · rintro ⟨role, h⟩
    cases h with
    | objectInterface hn => exact .objectInterface hn
    | objectField hf h => exact .objectField hf h
    | interfaceInterface hn => exact .interfaceInterface hn
    | interfaceField hf h => exact .interfaceField hf h
    | inputField hf h => exact .inputField hf h
    | member hn => exact .member hn

/-! ## Interfaces left out -/

def TypeShape.withoutInterfaces : TypeShape → TypeShape
  | .object _ fields => .object [] fields
  | .interface _ fields => .interface [] fields
  | shape => shape

def Definition.withoutInterfaces : Definition → Definition
  | .type description name directives shape =>
    .type description name directives shape.withoutInterfaces
  | .extendType name directives shape => .extendType name directives shape.withoutInterfaces
  | x => x

def Document.withoutInterfaces (d : Document) : Document := d.map Definition.withoutInterfaces

@[simp] theorem TypeShape.kind_withoutInterfaces (shape : TypeShape) :
    shape.withoutInterfaces.kind = shape.kind := by
  cases shape <;> rfl

end ResolverKit.Sdl

namespace ResolverKit.Schema

open Sdl (Role TypeKind TypeRef TypeShape FieldDef InputValue Definition Document)

@[simp] theorem shapeUses_withoutInterfaces (owner : String) (shape : TypeShape) :
    shapeUses owner shape.withoutInterfaces = shapeUses owner shape := by
  cases shape <;> rfl

@[simp] theorem fieldNames_withoutInterfaces (shape : TypeShape) :
    fieldNames shape.withoutInterfaces = fieldNames shape := by
  cases shape <;> rfl

@[simp] theorem unionNames_withoutInterfaces (shape : TypeShape) :
    unionNames shape.withoutInterfaces = unionNames shape := by
  cases shape <;> rfl

/-- A named shape without its interfaces. -/
def barePart (part : String × TypeShape) : String × TypeShape :=
  (part.1, part.2.withoutInterfaces)

theorem definitions_withoutInterfaces (d : Document) :
    definitions d.withoutInterfaces = (definitions d).map barePart := by
  unfold definitions Document.withoutInterfaces
  rw [List.filterMap_map, List.map_filterMap]
  congr 1
  funext x
  cases x <;> rfl

theorem extensions_withoutInterfaces (d : Document) :
    extensions d.withoutInterfaces = (extensions d).map barePart := by
  unfold extensions Document.withoutInterfaces
  rw [List.filterMap_map, List.map_filterMap]
  congr 1
  funext x
  cases x <;> rfl

theorem declared_withoutInterfaces (d : Document) :
    declared d.withoutInterfaces = declared d := by
  unfold declared
  rw [definitions_withoutInterfaces, List.map_map]
  refine List.map_congr_left fun part _ => ?_
  simp [barePart]

/-! ## Rules that do not look at interfaces -/

section

variable {d d' : Document} (h : d.withoutInterfaces = d'.withoutInterfaces)

include h

theorem declared_of_withoutInterfaces : declared d = declared d' := by
  rw [← declared_withoutInterfaces, h, declared_withoutInterfaces]

theorem definitions_of_withoutInterfaces :
    (definitions d).map barePart = (definitions d').map barePart := by
  rw [← definitions_withoutInterfaces, h, definitions_withoutInterfaces]

theorem extensions_of_withoutInterfaces :
    (extensions d).map barePart = (extensions d').map barePart := by
  rw [← extensions_withoutInterfaces, h, extensions_withoutInterfaces]

/-- A definition or extension is found again, but for its interfaces. -/
theorem exists_part_of_withoutInterfaces {name : String} {shape : TypeShape}
    (hm : (name, shape) ∈ definitions d ++ extensions d) :
    ∃ shape', (name, shape') ∈ definitions d' ++ extensions d' ∧
      shape'.withoutInterfaces = shape.withoutInterfaces := by
  have hparts : (definitions d ++ extensions d).map barePart =
      (definitions d' ++ extensions d').map barePart := by
    rw [List.map_append, definitions_of_withoutInterfaces h, extensions_of_withoutInterfaces h,
      List.map_append]
  have hbare := List.mem_map_of_mem (f := barePart) hm
  rw [hparts] at hbare
  obtain ⟨⟨name', shape'⟩, hm', heq⟩ := List.mem_map.1 hbare
  obtain ⟨rfl, hshape⟩ := Prod.mk.inj heq
  exact ⟨shape', hm', hshape⟩

/-- Operations and fragments have no interfaces. -/
theorem mem_of_withoutInterfaces {x : Definition} (hx : x ∈ d)
    (hself : ∀ y : Definition, y.withoutInterfaces = x.withoutInterfaces → y = x) : x ∈ d' := by
  have hbare := List.mem_map_of_mem (f := Definition.withoutInterfaces) hx
  rw [show d.map Definition.withoutInterfaces = d'.map Definition.withoutInterfaces from h] at hbare
  obtain ⟨y, hy, heq⟩ := List.mem_map.1 hbare
  rwa [← hself y heq]

/-- A declaration that breaks a rule does so whatever the interfaces are. -/
theorem Violation.withoutInterfaces {label : String} (hv : Violation d label) :
    Violation d' label := by
  have hdeclared := declared_of_withoutInterfaces h
  have hnames : typeNames d = typeNames d' := by rw [typeNames, hdeclared, typeNames]
  cases hv with
  | operation hx =>
    refine .operation (mem_of_withoutInterfaces h hx fun y hy => ?_)
    cases y <;> cases hy
    rfl
  | fragment hx =>
    refine .fragment (mem_of_withoutInterfaces h hx fun y hy => ?_)
    cases y <;> cases hy
    rfl
  | definedTwice hname => exact .definedTwice (hnames ▸ hname)
  | @nestedList owner shape label ref hm hu hnested =>
    obtain ⟨shape', hm', hshape⟩ := exists_part_of_withoutInterfaces h hm
    rw [← shapeUses_withoutInterfaces, ← hshape, shapeUses_withoutInterfaces] at hu
    exact .nestedList hm' hu hnested
  | @unknownType owner shape label ref hm hu hnone hbuiltin =>
    obtain ⟨shape', hm', hshape⟩ := exists_part_of_withoutInterfaces h hm
    rw [← shapeUses_withoutInterfaces, ← hshape, shapeUses_withoutInterfaces] at hu
    exact .unknownType hm' hu (hnames ▸ hnone) hbuiltin
  | @notAnObject union shape member hm hmember hobject =>
    obtain ⟨shape', hm', hshape⟩ := exists_part_of_withoutInterfaces h hm
    rw [← unionNames_withoutInterfaces, ← hshape, unionNames_withoutInterfaces] at hmember
    exact .notAnObject hm' hmember (hdeclared ▸ hobject)
  | @strayExtension name shape hm hscalar hstray =>
    have hbare := List.mem_map_of_mem (f := barePart) hm
    rw [extensions_of_withoutInterfaces h] at hbare
    obtain ⟨⟨name', shape'⟩, hm', heq⟩ := List.mem_map.1 hbare
    obtain ⟨rfl, hshape⟩ := Prod.mk.inj heq
    have hkind : shape.kind = shape'.kind := by
      rw [← TypeShape.kind_withoutInterfaces, ← hshape, TypeShape.kind_withoutInterfaces]
    rw [hkind, hdeclared] at hstray
    exact .strayExtension hm' (hkind ▸ hscalar) hstray
  | @fieldDeclaredTwice name field shape earlier before behind hsplit hfield he hfield' =>
    have hexts := extensions_of_withoutInterfaces h
    rw [hsplit, List.map_append, List.map_cons] at hexts
    obtain ⟨before', rest, hsplit', hbefore, hrest⟩ := List.map_eq_append_iff.1 hexts.symm
    obtain ⟨⟨name', shape'⟩, behind', rfl, heq, -⟩ := List.map_eq_cons_iff.1 hrest
    obtain ⟨rfl, hshape⟩ := Prod.mk.inj heq
    have hearlier := List.mem_map_of_mem (f := barePart) he
    rw [List.map_append, definitions_of_withoutInterfaces h, ← hbefore, ← List.map_append]
      at hearlier
    obtain ⟨⟨name', earlier'⟩, he', heq'⟩ := List.mem_map.1 hearlier
    obtain ⟨rfl, hearlier'⟩ := Prod.mk.inj heq'
    rw [← fieldNames_withoutInterfaces, ← hshape, fieldNames_withoutInterfaces] at hfield
    rw [← fieldNames_withoutInterfaces, ← hearlier', fieldNames_withoutInterfaces] at hfield'
    exact .fieldDeclaredTwice hsplit' hfield he' hfield'

end

/-! ## Values and members -/

theorem exists_fieldUse_of_mentions (owner : String) {n : String} {f : FieldDef}
    (h : f.Mentions n) :
    ∃ label ref, (label, ref) ∈ fieldUses owner f ∧ ref.base = n := by
  unfold fieldUses
  cases h with
  | type h =>
    exact ⟨_, f.type, List.mem_append_right _ (List.mem_singleton.2 rfl),
      (TypeRef.eq_base_iff.2 h).symm⟩
  | @argument a ha h =>
    exact ⟨_, a.type, List.mem_append_left _ (List.mem_map.2 ⟨a, ha, rfl⟩),
      (TypeRef.eq_base_iff.2 h).symm⟩

/-- A type that a definition refers to as that of a value is used at a declaration. -/
theorem exists_use_of_refers (owner : String) {n : String} {shape : TypeShape}
    (h : shape.Refers n .value) :
    ∃ label ref, (label, ref) ∈ shapeUses owner shape ∧ ref.base = n := by
  cases h with
  | objectField hf h =>
    obtain ⟨label, ref, hu, hn⟩ := exists_fieldUse_of_mentions owner h
    exact ⟨label, ref, List.mem_flatMap.2 ⟨_, hf, hu⟩, hn⟩
  | interfaceField hf h =>
    obtain ⟨label, ref, hu, hn⟩ := exists_fieldUse_of_mentions owner h
    exact ⟨label, ref, List.mem_flatMap.2 ⟨_, hf, hu⟩, hn⟩
  | @inputField fs f hf h =>
    exact ⟨_, f.type, List.mem_map.2 ⟨f, hf, rfl⟩, (TypeRef.eq_base_iff.2 h).symm⟩

theorem mem_unionNames_of_refers {n : String} {shape : TypeShape} (h : shape.Refers n .member) :
    n ∈ unionNames shape := by
  cases h with
  | member hn => exact hn

/-! ## Accepted documents -/

/-- The name may stand in this role: it is a defined type or, as that of a value, a scalar that
every schema has. -/
def IsDeclared (d : Document) (role : Role) (n : String) : Prop :=
  n ∈ typeNames d ∨ (role = .value ∧ n ∈ builtinScalars)

/-- All references of one role are declared. -/
def RoleDeclared (d : Document) (role : Role) : Prop :=
  ∀ name shape, (name, shape) ∈ definitions d ++ extensions d →
    ∀ n, shape.Refers n role → IsDeclared d role n

/-- What is known of the references of a document: those to values and to members are declared,
members as object types, and those to interfaces may be anything. -/
structure LeavesInterfaces (d : Document) : Prop where
  values : RoleDeclared d .value
  members : RoleDeclared d .member
  objects : ∀ name shape, (name, shape) ∈ definitions d ++ extensions d →
    ∀ n, shape.Refers n .member → (n, .object) ∈ declared d
  mentions : ∀ name shape, (name, shape) ∈ definitions d ++ extensions d →
    ∀ n, shape.Mentions n → n ∈ typeNames d ∨ n ∈ builtinScalars ∨ shape.Refers n .interface
  declared_iff : (∀ role, RoleDeclared d role) ↔ RoleDeclared d .interface
  unread : ∀ d' : Document, d'.withoutInterfaces = d.withoutInterfaces →
    ∃ s', ofDocument d' = .ok s'

/-- It is by interfaces alone that a reference of an accepted document can be undeclared, and the
document is accepted with any others as well. -/
theorem ofDocument_leaves_interfaces {d : Document} {s : Schema} (h : ofDocument d = .ok s) :
    LeavesInterfaces d := by
  obtain ⟨-, hnone⟩ := merged_of_ofDocument h
  have hvalue : RoleDeclared d .value := by
    intro name shape hm n hn
    obtain ⟨label, ref, hu, rfl⟩ := exists_use_of_refers name hn
    by_contra hnot
    simp only [IsDeclared, true_and, not_or] at hnot
    exact hnone label (.unknownType hm hu hnot.1 hnot.2)
  have hobject : ∀ name shape, (name, shape) ∈ definitions d ++ extensions d →
      ∀ n, shape.Refers n .member → (n, .object) ∈ declared d := by
    intro name shape hm n hn
    by_contra hnot
    exact hnone name (.notAnObject hm (mem_unionNames_of_refers hn) hnot)
  have hmember : RoleDeclared d .member := fun name shape hm n hn =>
    .inl (List.mem_map.2 ⟨_, hobject name shape hm n hn, rfl⟩)
  refine ⟨hvalue, hmember, hobject, fun name shape hm n hn => ?_, ⟨fun hall => hall .interface,
    fun hinterface role => ?_⟩, fun d' hd' => ?_⟩
  · obtain ⟨role, hrefers⟩ := TypeShape.mentions_iff_refers.1 hn
    cases role with
    | value => exact (hvalue name shape hm n hrefers).imp_right fun hscalar => .inl hscalar.2
    | member => exact .inl ((hmember name shape hm n hrefers).resolve_right fun h => nomatch h.1)
    | interface => exact .inr (.inr hrefers)
  · cases role with
    | value => exact hvalue
    | member => exact hmember
    | interface => exact hinterface
  · exact (exists_ok_iff d').2 fun label hv => hnone label (hv.withoutInterfaces hd')

/-- A document whose types implement interfaces that are not there: one in a definition, one in an
extension. -/
def orphanDocument : Document :=
  [.type none "User" [] (.object ["Missing"]
     [⟨none, "id", [⟨none, "form", .named "Form" false, none, []⟩], .named "ID" true, []⟩]),
   .type none "Form" [] (.input [⟨none, "width", .named "Int" false, none, []⟩]),
   .type none "Any" [] (.union ["User"]),
   .extendType "User" [] (.object ["Lost"] [])]

/-- That document is accepted, although not all of its references are declared. -/
theorem ofDocument_orphanDocument :
    ofDocument orphanDocument = .ok (merged orphanDocument) ∧ LeavesInterfaces orphanDocument ∧
      ¬ ∀ role, RoleDeclared orphanDocument role := by
  have hd : ofDocument orphanDocument = .ok (merged orphanDocument) := rfl
  have hleaves := ofDocument_leaves_interfaces hd
  refine ⟨hd, hleaves, fun hroles => ?_⟩
  have hmissing := hleaves.declared_iff.1 hroles "User" _ (List.mem_cons_self ..) "Missing"
    (.objectInterface (by decide))
  exact absurd (hmissing.resolve_right fun h => nomatch h.1) (by decide)

end ResolverKit.Schema
