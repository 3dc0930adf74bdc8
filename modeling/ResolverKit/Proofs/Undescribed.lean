import ResolverKit.Schema.Extraction

/-!
# Documents without descriptions

Descriptions play no part in the reading of a document: taking them all away before gives the same
as taking them away afterwards, be it a schema or an error.

    ofDocument d.undescribed = Schema.undescribed <$> ofDocument d          (ofDocument_undescribed)
-/

namespace ResolverKit.Sdl

/-! ## Documents -/

/-- An argument or an input field without its description. -/
def InputValue.undescribed (v : InputValue) : InputValue := { v with description := none }

def FieldDef.undescribed (f : FieldDef) : FieldDef :=
  { f with description := none, arguments := f.arguments.map InputValue.undescribed }

def EnumValue.undescribed (v : EnumValue) : EnumValue := { v with description := none }

def VariableDef.undescribed (v : VariableDef) : VariableDef := { v with description := none }

/-- What is said about a type, without descriptions. -/
def TypeShape.undescribed : TypeShape → TypeShape
  | .scalar => .scalar
  | .object interfaces fields => .object interfaces (fields.map FieldDef.undescribed)
  | .interface interfaces fields => .interface interfaces (fields.map FieldDef.undescribed)
  | .union members => .union members
  | .enum values => .enum (values.map EnumValue.undescribed)
  | .input fields => .input (fields.map InputValue.undescribed)

def Definition.undescribed : Definition → Definition
  | .operation _ kind name vars directives selections =>
    .operation none kind name (vars.map VariableDef.undescribed) directives selections
  | .fragment _ name on directives selections => .fragment none name on directives selections
  | .schema _ directives operations => .schema none directives operations
  | .extendSchema directives operations => .extendSchema directives operations
  | .type _ name directives shape => .type none name directives shape.undescribed
  | .extendType name directives shape => .extendType name directives shape.undescribed
  | .directive _ name arguments directives repeatable locations =>
    .directive none name (arguments.map InputValue.undescribed) directives repeatable locations
  | .extendDirective name directives => .extendDirective name directives

def Document.undescribed (d : Document) : Document := d.map Definition.undescribed

@[simp] theorem TypeShape.kind_undescribed (shape : TypeShape) :
    shape.undescribed.kind = shape.kind := by
  cases shape <;> rfl

end ResolverKit.Sdl

namespace ResolverKit

open Sdl (TypeShape FieldDef InputValue Definition Document StringLit)

namespace Schema

/-! ## Schemas -/

def Field.undescribed (f : Field) : Field := { f with description := none }

/-- An object type or an interface without descriptions. -/
def ObjectType.undescribed (t : ObjectType) : ObjectType :=
  { t with fields := t.fields.map Field.undescribed, description := none }

def InputType.undescribed (t : InputType) : InputType :=
  { t with fields := t.fields.map Field.undescribed, description := none }

def EnumType.undescribed (t : EnumType) : EnumType := { t with description := none }

def UnionType.undescribed (t : UnionType) : UnionType := { t with description := none }

def ScalarType.undescribed (t : ScalarType) : ScalarType := { t with description := none }

def Entry.undescribed : Entry → Entry
  | .type t => .type t.undescribed
  | .input t => .input t.undescribed
  | .enum t => .enum t.undescribed
  | .union t => .union t.undescribed
  | .scalar t => .scalar t.undescribed

end Schema

def Schema.undescribed (s : Schema) : Schema where
  types := s.types.map Schema.ObjectType.undescribed
  enums := s.enums.map Schema.EnumType.undescribed
  unions := s.unions.map Schema.UnionType.undescribed
  inputs := s.inputs.map Schema.InputType.undescribed
  scalars := s.scalars.map Schema.ScalarType.undescribed

namespace Schema

/-! ## Definitions -/

theorem collectKinds_undescribed (known : Kinds) (d : Document) :
    collectKinds known d.undescribed = collectKinds known d := by
  induction d generalizing known with
  | nil => rfl
  | cons x r ih =>
    cases x with
    | operation => rfl
    | fragment => rfl
    | type description name directives shape =>
      show collectKinds known (.type none name directives shape.undescribed ::
        Document.undescribed r) = _
      simp only [collectKinds, executableLabel?, TypeShape.kind_undescribed, ih]
    | _ => exact ih known

section

variable {α α' β β' : Type} {u : α → α'} {v : β → β'}

/-- Two steps commute with changes of their results if each of them does. -/
theorem bind_commutes {k : α → Except ExtractionError β} {k' : α' → Except ExtractionError β'}
    (h : ∀ a, k' (u a) = v <$> k a) (r : Except ExtractionError α) :
    (u <$> r) >>= k' = v <$> (r >>= k) := by
  cases r with
  | error => rfl
  | ok a => exact h a

/-- The first step may have the same result on both sides. -/
theorem bind_commutes_same {k : α → Except ExtractionError β} {k' : α → Except ExtractionError β'}
    (h : ∀ a, k' a = v <$> k a) (r : Except ExtractionError α) : r >>= k' = v <$> (r >>= k) := by
  cases r with
  | error => rfl
  | ok a => exact h a

/-- A reading of elements that commutes with a change of them commutes on lists. -/
theorem mapM_commutes {f : α → Except ExtractionError β} {f' : α' → Except ExtractionError β'}
    (h : ∀ a, f' (u a) = v <$> f a) (xs : List α) :
    (xs.map u).mapM f' = List.map v <$> xs.mapM f := by
  induction xs with
  | nil => rfl
  | cons x r ih =>
    rw [List.map_cons, List.mapM_cons, List.mapM_cons, h, ih]
    refine bind_commutes (fun _ => ?_) _
    exact bind_commutes (fun _ => by rfl) _

end

theorem Field.ofDef_undescribed (kinds : Kinds) (owner : String) (f : FieldDef) :
    Field.ofDef kinds owner f.undescribed = Field.undescribed <$> Field.ofDef kinds owner f := by
  have hargs : f.undescribed.arguments.mapM (Argument.ofDef kinds (owner ++ "." ++ f.name)) =
      f.arguments.mapM (Argument.ofDef kinds (owner ++ "." ++ f.name)) := List.mapM_map
  show f.undescribed.arguments.mapM (Argument.ofDef kinds (owner ++ "." ++ f.name)) >>= _ = _
  rw [hargs]
  refine bind_commutes_same (fun arguments => ?_) _
  exact bind_commutes_same (fun _ => by rfl) (TypeUse.ofRef kinds (owner ++ "." ++ f.name) f.type)

theorem Field.ofInput_undescribed (kinds : Kinds) (owner : String) (v : InputValue) :
    Field.ofInput kinds owner v.undescribed = Field.undescribed <$> Field.ofInput kinds owner v :=
  bind_commutes_same (fun _ => by rfl) (TypeUse.ofRef kinds (owner ++ "." ++ v.name) v.type)

theorem Entry.ofDefinition_undescribed (kinds : Kinds) (description : Option StringLit)
    (name : String) (shape : TypeShape) :
    Entry.ofDefinition kinds none name shape.undescribed =
      Entry.undescribed <$> Entry.ofDefinition kinds description name shape := by
  have hfields := mapM_commutes (Field.ofDef_undescribed kinds name)
  have hinputs := mapM_commutes (Field.ofInput_undescribed kinds name)
  cases shape with
  | scalar => rfl
  | object interfaces fields =>
    simp only [TypeShape.undescribed, Entry.ofDefinition, hfields]
    exact bind_commutes (fun _ => by rfl) _
  | interface interfaces fields =>
    simp only [TypeShape.undescribed, Entry.ofDefinition, hfields]
    exact bind_commutes (fun _ => by rfl) _
  | union members =>
    exact bind_commutes_same (fun _ => by rfl) (unionMembers kinds name members)
  | enum values =>
    simp only [TypeShape.undescribed, Entry.ofDefinition, List.map_map]
    rfl
  | input fields =>
    simp only [TypeShape.undescribed, Entry.ofDefinition, hinputs]
    exact bind_commutes (fun _ => by rfl) _

theorem entries_undescribed (kinds : Kinds) (d : Document) :
    entries kinds d.undescribed = List.map Entry.undescribed <$> entries kinds d := by
  induction d with
  | nil => rfl
  | cons x r ih =>
    cases x with
    | type description name directives shape =>
      show Entry.ofDefinition kinds none name shape.undescribed >>=
        (fun e => entries kinds (Document.undescribed r) >>= fun es => pure (e :: es)) = _
      rw [Entry.ofDefinition_undescribed kinds description, ih]
      refine bind_commutes (fun _ => ?_) _
      exact bind_commutes (fun _ => by rfl) _
    | _ => exact ih

/-! ## Extensions -/

theorem addFields_undescribed (owner : String) (old new : List Field) :
    addFields owner (old.map Field.undescribed) (new.map Field.undescribed) =
      List.map Field.undescribed <$> addFields owner old new := by
  have hold : ∀ f : Field, (old.map Field.undescribed).any (·.name = f.name) =
      old.any (·.name = f.name) := by
    intro f
    rw [List.any_map]
    rfl
  have hfind : (new.map Field.undescribed).find?
      (fun f => (old.map Field.undescribed).any (·.name = f.name)) =
      (new.find? fun f => old.any (·.name = f.name)).map Field.undescribed := by
    simp only [hold, List.find?_map]
    rfl
  unfold addFields
  rw [hfind]
  cases new.find? fun f => old.any (·.name = f.name) with
  | none => exact congrArg Except.ok List.map_append.symm
  | some f => rfl

theorem ObjectType.extend_undescribed (kinds : Kinds) (t : ObjectType) (interfaces : List String)
    (fields : List FieldDef) :
    t.undescribed.extend kinds interfaces (fields.map FieldDef.undescribed) =
      ObjectType.undescribed <$> t.extend kinds interfaces fields := by
  have hnew := mapM_commutes (Field.ofDef_undescribed kinds t.name) fields
  show (fields.map FieldDef.undescribed).mapM (Field.ofDef kinds t.name) >>=
    (fun new => addFields t.name (t.fields.map Field.undescribed) new >>= _) = _
  rw [hnew]
  refine bind_commutes (fun new => ?_) _
  rw [addFields_undescribed]
  exact bind_commutes (fun _ => by rfl) _

theorem Entry.extend_undescribed (kinds : Kinds) (e : Entry) (shape : TypeShape) :
    e.undescribed.extend kinds shape.undescribed = Entry.undescribed <$> e.extend kinds shape := by
  cases e with
  | type t =>
    have hextend : ∀ interfaces fields,
        Entry.type <$> t.undescribed.extend kinds interfaces (fields.map FieldDef.undescribed) =
          Entry.undescribed <$> Entry.type <$> t.extend kinds interfaces fields := by
      intro interfaces fields
      rw [ObjectType.extend_undescribed, Functor.map_map, Functor.map_map]
      rfl
    cases shape with
    | object interfaces fields =>
      show (if t.isInterface then _ else Entry.type <$> _) =
        Entry.undescribed <$> if _ then _ else _
      split
      · rfl
      · exact hextend interfaces fields
    | interface interfaces fields =>
      show (if t.isInterface then Entry.type <$> _ else _) =
        Entry.undescribed <$> if _ then _ else _
      split
      · exact hextend interfaces fields
      · rfl
    | _ => rfl
  | input t =>
    cases shape with
    | input fields =>
      show (fields.map InputValue.undescribed).mapM (Field.ofInput kinds t.name) >>=
        (fun new => addFields t.name (t.fields.map Field.undescribed) new >>= _) = _
      rw [mapM_commutes (Field.ofInput_undescribed kinds t.name)]
      refine bind_commutes (fun new => ?_) _
      rw [addFields_undescribed]
      exact bind_commutes (fun _ => by rfl) _
    | _ => rfl
  | enum t =>
    cases shape with
    | enum values =>
      have hnames : (values.map Sdl.EnumValue.undescribed).map (·.name) = values.map (·.name) :=
        List.map_map
      show Except.ok (Entry.enum { t.undescribed with values := t.values ++ _ }) = _
      rw [hnames]
      rfl
    | _ => rfl
  | union t =>
    cases shape with
    | union members =>
      exact bind_commutes_same (fun _ => by rfl) (unionMembers kinds t.name members)
    | _ => rfl
  | scalar t => cases shape <;> rfl

@[simp] theorem Entry.name_undescribed (e : Entry) : e.undescribed.name = e.name := by
  cases e <;> rfl

theorem extendEntry_undescribed (kinds : Kinds) (name : String) (shape : TypeShape)
    (es : List Entry) :
    extendEntry kinds name shape.undescribed (es.map Entry.undescribed) =
      List.map Entry.undescribed <$> extendEntry kinds name shape es := by
  induction es with
  | nil => rfl
  | cons e r ih =>
    rw [List.map_cons, extendEntry, extendEntry, Entry.name_undescribed]
    split
    · rw [Entry.extend_undescribed]
      exact bind_commutes (fun _ => by rfl) _
    · rw [ih]
      exact bind_commutes (fun _ => by rfl) _

theorem extendEntries_undescribed (kinds : Kinds) (es : List Entry) (d : Document) :
    extendEntries kinds (es.map Entry.undescribed) d.undescribed =
      List.map Entry.undescribed <$> extendEntries kinds es d := by
  induction d generalizing es with
  | nil => rfl
  | cons x r ih =>
    cases x with
    | extendType name directives shape =>
      show (if shape.undescribed.kind = .scalar then
          extendEntries kinds (es.map Entry.undescribed) (Document.undescribed r)
        else extendEntry kinds name shape.undescribed (es.map Entry.undescribed) >>=
          fun es => extendEntries kinds es (Document.undescribed r)) = _
      rw [TypeShape.kind_undescribed, extendEntry_undescribed, extendEntries]
      split
      · exact ih es
      · exact bind_commutes ih _
    | _ => exact ih es

/-! ## The schema -/

theorem ofEntries_undescribed (es : List Entry) :
    ofEntries (es.map Entry.undescribed) = (ofEntries es).undescribed := by
  unfold ofEntries Schema.undescribed
  simp only [List.filterMap_map, List.map_filterMap]
  congr 1 <;> (
    congr 1
    funext e
    cases e <;> rfl)

/-- Descriptions play no part in the reading of a document. -/
theorem ofDocument_undescribed (d : Document) :
    ofDocument d.undescribed = Schema.undescribed <$> ofDocument d := by
  unfold ofDocument
  rw [collectKinds_undescribed]
  refine bind_commutes_same (fun kinds => ?_) _
  rw [entries_undescribed]
  refine bind_commutes (fun es => ?_) _
  rw [extendEntries_undescribed]
  exact bind_commutes (fun es => congrArg Except.ok (ofEntries_undescribed es)) _

end Schema

end ResolverKit
