import ResolverKit.Proofs.Violation

/-!
# The merged document

`merged d` says directly which schema a document describes: every type definition is one entry of
its collection, in document order, and holds what the definition lists followed by what its
extensions list, wherever these stand.  A type at a field or an argument keeps its name and its
modifiers and takes the kind of the definition of that name.

Extensions change entries one after the other.  `mergedEntry_extended` and `mergedEntry_of_ne`
say what one more extension means for the entry it names and for the others.
-/

namespace ResolverKit.Schema

open Sdl (TypeKind TypeRef TypeShape FieldDef InputValue Definition Document StringLit)

/-! ## Fields -/

/-- Whether a type as it is written is a list, and whether its items have to be there. -/
def multiplicityOf : TypeRef → Multiplicity
  | .named _ _ => .one
  | .list (.named _ itemRequired) _ => .many itemRequired
  | .list (.list _ itemRequired) _ => .many itemRequired

/-- The exclamation mark behind a type as it is written. -/
def isRequired : TypeRef → Bool
  | .named _ required => required
  | .list _ required => required

/-- The use of a type.  A name without a definition is a scalar. -/
def useOf (kinds : Kinds) (ref : TypeRef) : TypeUse :=
  ⟨ref.base, (kinds.lookup ref.base).getD .scalar, multiplicityOf ref, isRequired ref⟩

def argumentOf (kinds : Kinds) (v : InputValue) : Argument :=
  ⟨v.name, useOf kinds v.type, (v.default.map Literal.ofValue).getD .null⟩

def fieldOf (kinds : Kinds) (f : FieldDef) : Field :=
  ⟨f.name, useOf kinds f.type, f.arguments.map (argumentOf kinds), descriptionText f.description⟩

/-- The field of an input type that a definition describes. -/
def inputFieldOf (kinds : Kinds) (v : InputValue) : Field :=
  ⟨v.name, useOf kinds v.type, [], descriptionText v.description⟩

/-! ## Definitions with their extensions -/

def shapeFields (kinds : Kinds) : TypeShape → List Field
  | .object _ fields => fields.map (fieldOf kinds)
  | .interface _ fields => fields.map (fieldOf kinds)
  | .input fields => fields.map (inputFieldOf kinds)
  | _ => []

def shapeInterfaces : TypeShape → List String
  | .object interfaces _ => interfaces
  | .interface interfaces _ => interfaces
  | _ => []

def shapeValues : TypeShape → List String
  | .enum values => values.map (·.name)
  | _ => []

def extensionsOf (exts : List (String × TypeShape)) (name : String) : List TypeShape :=
  exts.filterMap fun (n, shape) => if n = name then some shape else none

/-- What a definition lists, followed by what its extensions list. -/
def gather {α : Type} (list : TypeShape → List α) (exts : List (String × TypeShape))
    (name : String) (shape : TypeShape) : List α :=
  list shape ++ (extensionsOf exts name).flatMap list

/-- The interfaces of a definition, followed by those that the extensions add to them. -/
def gatherInterfaces (exts : List (String × TypeShape)) (name : String) (shape : TypeShape) :
    List String :=
  shapeInterfaces shape ++
    (((extensionsOf exts name).flatMap shapeInterfaces).removeAll (shapeInterfaces shape)).eraseDups

/-- The object type or interface that a definition describes. -/
def mergedType? (kinds : Kinds) (exts : List (String × TypeShape)) : Definition → Option ObjectType
  | .type description name _ (.object interfaces fields) =>
    some ⟨name, false, gather (shapeFields kinds) exts name (.object interfaces fields),
      gatherInterfaces exts name (.object interfaces fields), descriptionText description⟩
  | .type description name _ (.interface interfaces fields) =>
    some ⟨name, true, gather (shapeFields kinds) exts name (.interface interfaces fields),
      gatherInterfaces exts name (.interface interfaces fields), descriptionText description⟩
  | _ => none

def mergedEnum? (exts : List (String × TypeShape)) : Definition → Option EnumType
  | .type description name _ (.enum values) =>
    some ⟨name, gather shapeValues exts name (.enum values), descriptionText description⟩
  | _ => none

def mergedUnion? (exts : List (String × TypeShape)) : Definition → Option UnionType
  | .type description name _ (.union members) =>
    some ⟨name, gather unionNames exts name (.union members), descriptionText description⟩
  | _ => none

def mergedInput? (kinds : Kinds) (exts : List (String × TypeShape)) : Definition → Option InputType
  | .type description name _ (.input fields) =>
    some ⟨name, gather (shapeFields kinds) exts name (.input fields), descriptionText description⟩
  | _ => none

def mergedScalar? : Definition → Option ScalarType
  | .type description name _ .scalar => some ⟨name, descriptionText description⟩
  | _ => none

/-- The schema that a document describes. -/
def merged (d : Document) : Schema where
  types := d.filterMap (mergedType? (declared d) (extensions d))
  enums := d.filterMap (mergedEnum? (extensions d))
  unions := d.filterMap (mergedUnion? (extensions d))
  inputs := d.filterMap (mergedInput? (declared d) (extensions d))
  scalars := d.filterMap mergedScalar?

/-! ## Entries -/

/-- The entry that a definition describes together with some extensions. -/
def mergedEntry (kinds : Kinds) (exts : List (String × TypeShape)) (description : Option StringLit)
    (name : String) (shape : TypeShape) : Entry :=
  match shape with
  | .scalar => .scalar ⟨name, descriptionText description⟩
  | .object _ _ =>
    .type ⟨name, false, gather (shapeFields kinds) exts name shape,
      gatherInterfaces exts name shape, descriptionText description⟩
  | .interface _ _ =>
    .type ⟨name, true, gather (shapeFields kinds) exts name shape,
      gatherInterfaces exts name shape, descriptionText description⟩
  | .union _ => .union ⟨name, gather unionNames exts name shape, descriptionText description⟩
  | .enum _ => .enum ⟨name, gather shapeValues exts name shape, descriptionText description⟩
  | .input _ =>
    .input ⟨name, gather (shapeFields kinds) exts name shape, descriptionText description⟩

/-- The entries of all definitions together with some extensions. -/
def mergedEntries (kinds : Kinds) (exts : List (String × TypeShape)) (d : Document) : List Entry :=
  d.filterMap fun
    | .type description name _ shape => some (mergedEntry kinds exts description name shape)
    | _ => none

@[simp] theorem mergedEntry_name (kinds : Kinds) (exts : List (String × TypeShape))
    (description : Option StringLit) (name : String) (shape : TypeShape) :
    (mergedEntry kinds exts description name shape).name = name := by
  cases shape <;> rfl

theorem ofEntries_mergedEntries (d : Document) :
    ofEntries (mergedEntries (declared d) (extensions d) d) = merged d := by
  unfold ofEntries merged mergedEntries
  simp only [List.filterMap_filterMap]
  congr 1 <;> (
    congr 1
    funext x
    cases x with
    | type description name directives shape => cases shape <;> rfl
    | _ => rfl)

theorem mem_extensionsOf {exts : List (String × TypeShape)} {name : String} {shape : TypeShape} :
    shape ∈ extensionsOf exts name ↔ (name, shape) ∈ exts := by
  simp only [extensionsOf, List.mem_filterMap]
  constructor
  · rintro ⟨⟨n, s⟩, hm, hs⟩
    obtain ⟨rfl, rfl⟩ : n = name ∧ s = shape := by simpa using hs
    exact hm
  · intro hm
    exact ⟨_, hm, by simp⟩

/-- What is gathered comes from the definition or an extension of its name. -/
theorem mem_gather {α : Type} {list : TypeShape → List α} {exts : List (String × TypeShape)}
    {name : String} {base : TypeShape} {x : α} :
    x ∈ gather list exts name base ↔
      ∃ shape, (name, shape) ∈ (name, base) :: exts ∧ x ∈ list shape := by
  unfold gather
  rw [List.mem_append, List.mem_flatMap]
  simp only [mem_extensionsOf, List.mem_cons, Prod.mk.injEq, true_and]
  constructor
  · rintro (hx | ⟨shape, hs, hx⟩)
    · exact ⟨base, .inl rfl, hx⟩
    · exact ⟨shape, .inr hs, hx⟩
  · rintro ⟨shape, rfl | hs, hx⟩
    · exact .inl hx
    · exact .inr ⟨shape, hs, hx⟩

/-! ## One more extension -/

theorem extensionsOf_append (exts exts' : List (String × TypeShape)) (name : String) :
    extensionsOf (exts ++ exts') name = extensionsOf exts name ++ extensionsOf exts' name :=
  List.filterMap_append

theorem gather_append {α : Type} (list : TypeShape → List α) (exts : List (String × TypeShape))
    (name : String) (base shape : TypeShape) :
    gather list (exts ++ [(name, shape)]) name base = gather list exts name base ++ list shape := by
  unfold gather
  rw [extensionsOf_append, List.flatMap_append, ← List.append_assoc]
  congr 1
  simp [extensionsOf]

/-- The interfaces of an extension that are new come behind those that are there. -/
theorem addInterfaces_eq (old new : List String) :
    addInterfaces old new = old ++ (new.removeAll old).eraseDups := by
  induction new generalizing old with
  | nil => simp [addInterfaces, List.removeAll]
  | cons i r ih =>
    rw [addInterfaces, ih]
    by_cases hi : old.contains i = true
    · rw [if_pos hi]
      simp only [List.removeAll, List.elem_eq_contains] at *
      rw [List.filter_cons_of_neg (by simpa using hi)]
    · rw [if_neg hi]
      simp only [List.removeAll, List.elem_eq_contains] at *
      have hp : (fun x => !(old ++ [i]).contains x) = fun x => !x == i && !old.contains x := by
        funext x
        by_cases hx : x = i <;> simp [hx]
      rw [List.filter_cons_of_pos (by simpa using hi), List.eraseDups_cons, List.filter_filter,
        List.append_assoc, hp]
      rfl

theorem addInterfaces_append (old new new' : List String) :
    addInterfaces old (new ++ new') = addInterfaces (addInterfaces old new) new' := by
  induction new generalizing old with
  | nil => rfl
  | cons i r ih => exact ih _

theorem addInterfaces_gatherInterfaces (exts : List (String × TypeShape)) (name : String)
    (base shape : TypeShape) :
    addInterfaces (gatherInterfaces exts name base) (shapeInterfaces shape) =
      gatherInterfaces (exts ++ [(name, shape)]) name base := by
  unfold gatherInterfaces
  rw [← addInterfaces_eq, ← addInterfaces_eq, ← addInterfaces_append, extensionsOf_append,
    List.flatMap_append]
  congr 2
  simp [extensionsOf]

/-- An extension concerns the entries of its name only. -/
theorem mergedEntry_of_ne {kinds : Kinds} {exts : List (String × TypeShape)}
    {description : Option StringLit} {name other : String} {base shape : TypeShape}
    (h : other ≠ name) :
    mergedEntry kinds (exts ++ [(other, shape)]) description name base =
      mergedEntry kinds exts description name base := by
  have hexts : extensionsOf (exts ++ [(other, shape)]) name = extensionsOf exts name := by
    rw [extensionsOf_append]
    simp [extensionsOf, h]
  unfold mergedEntry gather gatherInterfaces
  rw [hexts]

/-- Extensions of scalars add nothing. -/
theorem mergedEntry_scalar (kinds : Kinds) (exts : List (String × TypeShape))
    (description : Option StringLit) (name other : String) (base : TypeShape) :
    mergedEntry kinds (exts ++ [(other, .scalar)]) description name base =
      mergedEntry kinds exts description name base := by
  by_cases h : other = name
  · subst h
    unfold mergedEntry
    simp only [gather_append, ← addInterfaces_gatherInterfaces, shapeFields, shapeValues,
      unionNames, shapeInterfaces, addInterfaces, List.append_nil]
  · exact mergedEntry_of_ne h

end ResolverKit.Schema
