import ResolverKit.Schema.Literal

/-!
# The schema of a document

`Schema.ofDocument` merges the definitions and extensions of a document into a schema, or names a
declaration that a schema may not hold.  The kinds of all defined types are collected first, so
that types may be mentioned before they are defined.  Then the definitions are read in their
order, each to one entry, and last the extensions, each of which changes the entry it names; an
extension may stand in front of the definition.
-/

namespace ResolverKit

open Sdl (TypeKind TypeRef TypeShape FieldDef InputValue Definition Document StringLit)

namespace Schema

/-! ## Errors -/

/-- Why a document is no schema.  `declaration` names a field (`T.f`), an argument (`T.f(a)`). -/
inductive ExtractionError
  | executable (label : String)
  | declaredTwice (name : String)
  | nestedList (declaration : String)
  | unknownType (declaration name : String)
  | notAnObject (union member : String)
  | undeclaredExtension (name : String)
  | fieldDeclaredTwice (type field : String)
  deriving DecidableEq, Repr

def ExtractionError.declaration : ExtractionError → String
  | .executable label => label
  | .declaredTwice name => name
  | .nestedList declaration => declaration
  | .unknownType declaration _ => declaration
  | .notAnObject union _ => union
  | .undeclaredExtension name => "extend " ++ name
  | .fieldDeclaredTwice type field => type ++ "." ++ field

def ExtractionError.detail : ExtractionError → String
  | .executable _ => "executable definitions are not allowed in a schema"
  | .declaredTwice _ => "declared more than once"
  | .nestedList _ => "nested lists are not supported"
  | .unknownType _ name => "unknown type " ++ name
  | .notAnObject _ member => "union member " ++ member ++ " is not an object type"
  | .undeclaredExtension _ => "cannot extend an undeclared type"
  | .fieldDeclaredTwice _ _ => "field declared more than once"

def ExtractionError.message (e : ExtractionError) : String := e.declaration ++ ": " ++ e.detail

/-! ## Kinds -/

/-- The kinds of the types that a document defines. -/
abbrev Kinds := List (String × TypeKind)

/-- The label of an operation or a fragment; other definitions have none. -/
def executableLabel? : Definition → Option String
  | .operation _ kind name _ _ _ => some (kind.text ++ " " ++ name.getD "<anonymous>")
  | .fragment _ name _ _ _ => some ("fragment " ++ name)
  | _ => none

/-- Adds the kinds of further definitions to those known so far. -/
def collectKinds (known : Kinds) : Document → Except ExtractionError Kinds
  | [] => .ok known
  | d :: r =>
    match executableLabel? d, d with
    | some label, _ => .error (.executable label)
    | none, .type _ name _ shape =>
      if (known.lookup name).isSome then .error (.declaredTwice name)
      else collectKinds (known ++ [(name, shape.kind)]) r
    | none, _ => collectKinds known r

/-- The kind of a name at a declaration: that of its definition, or a scalar that every schema
has. -/
def kindOf (kinds : Kinds) (declaration name : String) : Except ExtractionError TypeKind :=
  match kinds.lookup name with
  | some kind => .ok kind
  | none =>
    if builtinScalars.contains name then .ok .scalar else .error (.unknownType declaration name)

/-! ## Fields -/

def TypeUse.ofRef (kinds : Kinds) (declaration : String) : TypeRef → Except ExtractionError TypeUse
  | .named name required => do
    return ⟨name, ← kindOf kinds declaration name, .one, required⟩
  | .list (.named name itemRequired) required => do
    return ⟨name, ← kindOf kinds declaration name, .many itemRequired, required⟩
  | .list (.list _ _) _ => .error (.nestedList declaration)

def descriptionText (d : Option StringLit) : Option String := d.map (·.value)

/-- An argument of the field that `declaration` names. -/
def Argument.ofDef (kinds : Kinds) (declaration : String) (v : InputValue) :
    Except ExtractionError Argument := do
  let type ← TypeUse.ofRef kinds (declaration ++ "(" ++ v.name ++ ")") v.type
  return ⟨v.name, type, (v.default.map Literal.ofValue).getD .null⟩

def Field.ofDef (kinds : Kinds) (owner : String) (f : FieldDef) : Except ExtractionError Field := do
  let declaration := owner ++ "." ++ f.name
  let arguments ← f.arguments.mapM (Argument.ofDef kinds declaration)
  let type ← TypeUse.ofRef kinds declaration f.type
  return ⟨f.name, type, arguments, descriptionText f.description⟩

def Field.ofInput (kinds : Kinds) (owner : String) (v : InputValue) :
    Except ExtractionError Field := do
  let type ← TypeUse.ofRef kinds (owner ++ "." ++ v.name) v.type
  return ⟨v.name, type, [], descriptionText v.description⟩

/-- The members of the union `union`, which have to be object types. -/
def unionMembers (kinds : Kinds) (union : String) (members : List String) :
    Except ExtractionError (List String) :=
  members.mapM fun member =>
    if kinds.lookup member = some .object then .ok member else .error (.notAnObject union member)

/-! ## Entries -/

/-- What a definition contributes to a schema. -/
inductive Entry
  | type (t : ObjectType)
  | input (t : InputType)
  | enum (t : EnumType)
  | union (t : UnionType)
  | scalar (t : ScalarType)
  deriving Repr

def Entry.name : Entry → String
  | .type t => t.name
  | .input t => t.name
  | .enum t => t.name
  | .union t => t.name
  | .scalar t => t.name

def Entry.ofDefinition (kinds : Kinds) (description : Option StringLit) (name : String) :
    TypeShape → Except ExtractionError Entry
  | .scalar => .ok (.scalar ⟨name, descriptionText description⟩)
  | .object interfaces fields => do
    let fields ← fields.mapM (Field.ofDef kinds name)
    return .type ⟨name, false, fields, interfaces, descriptionText description⟩
  | .interface interfaces fields => do
    let fields ← fields.mapM (Field.ofDef kinds name)
    return .type ⟨name, true, fields, interfaces, descriptionText description⟩
  | .union members => do
    return .union ⟨name, ← unionMembers kinds name members, descriptionText description⟩
  | .enum values => .ok (.enum ⟨name, values.map (·.name), descriptionText description⟩)
  | .input fields => do
    let fields ← fields.mapM (Field.ofInput kinds name)
    return .input ⟨name, fields, descriptionText description⟩

def entries (kinds : Kinds) : Document → Except ExtractionError (List Entry)
  | [] => .ok []
  | .type description name _ shape :: r => do
    let e ← Entry.ofDefinition kinds description name shape
    return e :: (← entries kinds r)
  | _ :: r => entries kinds r

/-! ## Extensions -/

/-- The old fields of a type and new ones behind them, none of which has the name of an old one. -/
def addFields (owner : String) (old new : List Field) : Except ExtractionError (List Field) :=
  match new.find? fun f => old.any (·.name = f.name) with
  | some f => .error (.fieldDeclaredTwice owner f.name)
  | none => .ok (old ++ new)

/-- The old interfaces of a type and those of the new ones that are not there yet. -/
def addInterfaces (old : List String) : List String → List String
  | [] => old
  | i :: r => addInterfaces (if old.contains i then old else old ++ [i]) r

/-- The object type or interface with what an extension adds. -/
def ObjectType.extend (kinds : Kinds) (t : ObjectType) (interfaces : List String)
    (fields : List FieldDef) : Except ExtractionError ObjectType := do
  let new ← fields.mapM (Field.ofDef kinds t.name)
  let fields ← addFields t.name t.fields new
  return { t with fields, implements := addInterfaces t.implements interfaces }

/-- The entry with what an extension adds; the extension has to be of the same kind. -/
def Entry.extend (kinds : Kinds) (e : Entry) (shape : TypeShape) : Except ExtractionError Entry :=
  match e, shape with
  | .type t, .object interfaces fields =>
    if t.isInterface then .error (.undeclaredExtension t.name)
    else .type <$> t.extend kinds interfaces fields
  | .type t, .interface interfaces fields =>
    if t.isInterface then .type <$> t.extend kinds interfaces fields
    else .error (.undeclaredExtension t.name)
  | .input t, .input fields => do
    let new ← fields.mapM (Field.ofInput kinds t.name)
    return .input { t with fields := ← addFields t.name t.fields new }
  | .enum t, .enum values => .ok (.enum { t with values := t.values ++ values.map (·.name) })
  | .union t, .union members => do
    return .union { t with members := t.members ++ (← unionMembers kinds t.name members) }
  | e, _ => .error (.undeclaredExtension e.name)

/-- Changes the first entry of this name, which has to be there. -/
def extendEntry (kinds : Kinds) (name : String) (shape : TypeShape) :
    List Entry → Except ExtractionError (List Entry)
  | [] => .error (.undeclaredExtension name)
  | e :: r =>
    if e.name = name then do return (← e.extend kinds shape) :: r
    else do return e :: (← extendEntry kinds name shape r)

/-- The entries with what the extensions of a document add, in their order.  Extensions of
scalars add nothing. -/
def extendEntries (kinds : Kinds) (es : List Entry) : Document → Except ExtractionError (List Entry)
  | [] => .ok es
  | .extendType name _ shape :: r => do
    if shape.kind = .scalar then extendEntries kinds es r
    else extendEntries kinds (← extendEntry kinds name shape es) r
  | _ :: r => extendEntries kinds es r

/-! ## Schema -/

/-- The schema with these entries, each in its collection. -/
def ofEntries (es : List Entry) : Schema where
  types := es.filterMap fun | .type t => some t | _ => none
  enums := es.filterMap fun | .enum t => some t | _ => none
  unions := es.filterMap fun | .union t => some t | _ => none
  inputs := es.filterMap fun | .input t => some t | _ => none
  scalars := es.filterMap fun | .scalar t => some t | _ => none

/-- The schema of a document. -/
def ofDocument (d : Document) : Except ExtractionError Schema := do
  let kinds ← collectKinds [] d
  let es ← entries kinds d
  return ofEntries (← extendEntries kinds es d)

end Schema

end ResolverKit
