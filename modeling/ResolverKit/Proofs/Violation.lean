import Mathlib.Data.List.Duplicate
import ResolverKit.Schema.Extraction

/-!
# What a schema may not hold

`Violation d label` says that the declaration `label` of the document `d` breaks one of the rules
for schemas, whatever else the document holds and in whatever order:

1. operations and fragments are not allowed;
2. no two types have the same name;
3. the type of a field or an argument is no list of lists, and its name is a defined type or a
   scalar that every schema has;
4. the members of a union are object types;
5. an extension belongs to a defined type of its kind;
6. an extension declares no field that the definition or an earlier extension declares.

A field that one definition or one extension declares twice, an interface that is not there, a
repeated enum value and an extension of a scalar break no rule.
-/

namespace ResolverKit.Schema

open Sdl (TypeKind TypeRef TypeShape FieldDef InputValue Definition Document)

/-! ## Declarations -/

/-- The name and the shape that a type definition gives. -/
def definition? : Definition → Option (String × TypeShape)
  | .type _ name _ shape => some (name, shape)
  | _ => none

/-- The name and the shape that a type extension gives. -/
def extension? : Definition → Option (String × TypeShape)
  | .extendType name _ shape => some (name, shape)
  | _ => none

def definitions (d : Document) : List (String × TypeShape) := d.filterMap definition?

def extensions (d : Document) : List (String × TypeShape) := d.filterMap extension?

/-- The defined types with their kinds. -/
def declared (d : Document) : Kinds := (definitions d).map fun (name, shape) => (name, shape.kind)

def typeNames (d : Document) : List String := (declared d).map (·.1)

/-! ## Uses of types -/

/-- A list whose items are lists again. -/
def IsNested : TypeRef → Prop
  | .list (.list _ _) _ => True
  | _ => False

/-- The types at a field with the labels of their declarations, arguments first. -/
def fieldUses (owner : String) (f : FieldDef) : List (String × TypeRef) :=
  f.arguments.map (fun a => (owner ++ "." ++ f.name ++ "(" ++ a.name ++ ")", a.type)) ++
    [(owner ++ "." ++ f.name, f.type)]

/-- The type at an input field with the label of its declaration. -/
def inputUse (owner : String) (v : InputValue) : String × TypeRef :=
  (owner ++ "." ++ v.name, v.type)

/-- The types at all fields and arguments of a type, with the labels of their declarations. -/
def shapeUses (owner : String) : TypeShape → List (String × TypeRef)
  | .object _ fields => fields.flatMap (fieldUses owner)
  | .interface _ fields => fields.flatMap (fieldUses owner)
  | .input fields => fields.map (inputUse owner)
  | _ => []

/-- The names of the fields that a definition or an extension declares. -/
def fieldNames : TypeShape → List String
  | .object _ fields => fields.map (·.name)
  | .interface _ fields => fields.map (·.name)
  | .input fields => fields.map (·.name)
  | _ => []

def unionNames : TypeShape → List String
  | .union members => members
  | _ => []

/-! ## Rules -/

/-- The declaration with this label breaks a rule for schemas. -/
inductive Violation (d : Document) : String → Prop
  | operation {description kind name vars directives selections} :
      .operation description kind name vars directives selections ∈ d →
      Violation d (kind.text ++ " " ++ name.getD "<anonymous>")
  | fragment {description name on directives selections} :
      .fragment description name on directives selections ∈ d →
      Violation d ("fragment " ++ name)
  | definedTwice {name : String} : List.Duplicate name (typeNames d) → Violation d name
  | nestedList {owner : String} {shape : TypeShape} {label : String} {ref : TypeRef} :
      (owner, shape) ∈ definitions d ++ extensions d → (label, ref) ∈ shapeUses owner shape →
      IsNested ref → Violation d label
  | unknownType {owner : String} {shape : TypeShape} {label : String} {ref : TypeRef} :
      (owner, shape) ∈ definitions d ++ extensions d → (label, ref) ∈ shapeUses owner shape →
      ref.base ∉ typeNames d → ref.base ∉ builtinScalars → Violation d label
  | notAnObject {union : String} {shape : TypeShape} {member : String} :
      (union, shape) ∈ definitions d ++ extensions d → member ∈ unionNames shape →
      (member, .object) ∉ declared d → Violation d union
  | strayExtension {name : String} {shape : TypeShape} : (name, shape) ∈ extensions d →
      shape.kind ≠ .scalar → (name, shape.kind) ∉ declared d → Violation d ("extend " ++ name)
  | fieldDeclaredTwice {name field : String} {shape earlier : TypeShape}
      {before behind : List (String × TypeShape)} :
      extensions d = before ++ (name, shape) :: behind → field ∈ fieldNames shape →
      (name, earlier) ∈ definitions d ++ before → field ∈ fieldNames earlier →
      Violation d (name ++ "." ++ field)

/-! ## Lemmas -/

theorem mem_definitions {d : Document} {name : String} {shape : TypeShape} :
    (name, shape) ∈ definitions d ↔
      ∃ description directives, .type description name directives shape ∈ d := by
  rw [definitions, List.mem_filterMap]
  constructor
  · rintro ⟨x, hx, h⟩
    cases x <;> cases h
    exact ⟨_, _, hx⟩
  · rintro ⟨_, _, h⟩
    exact ⟨_, h, rfl⟩

theorem mem_declared {d : Document} {name : String} {kind : TypeKind} :
    (name, kind) ∈ declared d ↔ ∃ shape, (name, shape) ∈ definitions d ∧ shape.kind = kind := by
  simp [declared]

/-- Where no name is defined twice, looking a name up finds every definition. -/
theorem lookup_eq_some_iff_mem {kinds : Kinds} (h : (kinds.map (·.1)).Nodup) {name : String}
    {kind : TypeKind} : kinds.lookup name = some kind ↔ (name, kind) ∈ kinds := by
  induction kinds with
  | nil => simp
  | cons p r ih =>
    obtain ⟨name', kind'⟩ := p
    rw [List.map_cons, List.nodup_cons] at h
    rw [List.lookup_cons, List.mem_cons]
    by_cases hn : name = name'
    · subst hn
      have hr : (name, kind) ∉ r := fun hm => h.1 (List.mem_map.2 ⟨_, hm, rfl⟩)
      simp [hr, eq_comm]
    · have hne : (name == name') = false := by simpa using hn
      simp only [hne, Prod.mk.injEq, hn, false_and, false_or]
      exact ih h.2

end ResolverKit.Schema
