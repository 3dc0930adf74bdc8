import ResolverKit.Proofs.Accepted
import ResolverKit.Sdl.Lexer

/-!
# Names

The names of a schema text consist of letters, digits and underscores.  They stay names in the
schema.

    d.IsNamed → ofDocument d = .ok s → s.IsNamed                      (isNamed_of_ofDocument)
-/

namespace ResolverKit.Sdl

/-! ## Names of a document -/

/-- A name as the schema language has it. -/
def IsName (s : String) : Prop :=
  s.toList.head?.any isNameStart = true ∧ s.toList.all isNameContinue = true

instance (s : String) : Decidable (IsName s) :=
  inferInstanceAs (Decidable (_ ∧ _))

theorem isNameContinue_of_isNameStart {c : Char} (h : isNameStart c = true) :
    isNameContinue c = true := by
  unfold isNameStart at h
  unfold isNameContinue Char.isAlphanum
  rcases Bool.or_eq_true_iff.1 h with h | h <;> simp [h]

def InputValue.names (v : InputValue) : List String := [v.name, v.type.base]

def FieldDef.names (f : FieldDef) : List String :=
  [f.name, f.type.base] ++ f.arguments.flatMap (·.names)

/-- The names in a definition or an extension of a type; the interfaces do not count. -/
def TypeShape.names : TypeShape → List String
  | .scalar => []
  | .object _ fields => fields.flatMap (·.names)
  | .interface _ fields => fields.flatMap (·.names)
  | .union members => members
  | .enum values => values.map (·.name)
  | .input fields => fields.flatMap (·.names)

def Definition.names : Definition → List String
  | .type _ name _ shape => name :: shape.names
  | .extendType name _ shape => name :: shape.names
  | _ => []

/-- The types of a document and what belongs to them are called by names. -/
def Document.IsNamed (d : Document) : Prop := ∀ x ∈ d, ∀ n ∈ x.names, IsName n

instance (d : Document) : Decidable d.IsNamed :=
  inferInstanceAs (Decidable (∀ x ∈ d, ∀ n ∈ x.names, IsName n))

end ResolverKit.Sdl

namespace ResolverKit.Schema

open Sdl (IsName TypeShape FieldDef InputValue Definition Document)

/-! ## Names of a schema -/

/-- A field, its arguments and their types are called by names. -/
structure Field.IsNamed (f : Field) : Prop where
  name : IsName f.name
  type : IsName f.type.name
  arguments : ∀ a ∈ f.arguments, IsName a.name ∧ IsName a.type.name

/-- The types of a schema and what belongs to them are called by names. -/
structure IsNamed (s : Schema) : Prop where
  types : ∀ t ∈ s.types, IsName t.name ∧ ∀ f ∈ t.fields, f.IsNamed
  inputs : ∀ t ∈ s.inputs, IsName t.name ∧ ∀ f ∈ t.fields, f.IsNamed
  enums : ∀ e ∈ s.enums, IsName e.name ∧ ∀ v ∈ e.values, IsName v
  unions : ∀ u ∈ s.unions, IsName u.name ∧ ∀ m ∈ u.members, IsName m

/-- The schema of an accepted document is the merged one, and the document breaks no rule. -/
theorem merged_of_ofDocument {d : Document} {s : Schema} (h : ofDocument d = .ok s) :
    s = merged d ∧ ∀ label, ¬ Violation d label := by
  have hj := ofDocument_judges d
  rw [h] at hj
  cases hj with
  | pass hnone => exact ⟨rfl, hnone⟩

theorem nodup_typeNames {d : Document} (hnone : ∀ label, ¬ Violation d label) :
    (typeNames d).Nodup :=
  List.nodup_iff_forall_not_duplicate.2 fun name h => hnone name (.definedTwice h)

theorem isName_of_mem_part {d : Document} (hd : d.IsNamed) {name : String} {shape : TypeShape}
    (h : (name, shape) ∈ definitions d ++ extensions d) : ∀ n ∈ name :: shape.names, IsName n := by
  rcases List.mem_append.1 h with h | h
  · obtain ⟨_, _, hx⟩ := mem_definitions.1 h
    exact hd _ hx
  · obtain ⟨x, hx, hxs⟩ := List.mem_filterMap.1 h
    cases x <;> cases hxs
    exact hd _ hx

theorem isNamed_of_mem_shapeFields {kinds : Kinds} {shape : TypeShape}
    (h : ∀ n ∈ shape.names, IsName n) : ∀ f ∈ shapeFields kinds shape, f.IsNamed := by
  have hinput : ∀ v : InputValue, (∀ n ∈ v.names, IsName n) →
      IsName v.name ∧ IsName v.type.base := fun v hv =>
    ⟨hv _ (by simp [InputValue.names]), hv _ (by simp [InputValue.names])⟩
  have hfield : ∀ fields : List FieldDef, (∀ n ∈ fields.flatMap (·.names), IsName n) →
      ∀ f ∈ fields.map (fieldOf kinds), f.IsNamed := by
    intro fields hnames f hf
    obtain ⟨g, hg, rfl⟩ := List.mem_map.1 hf
    have hnames : ∀ n ∈ g.names, IsName n := fun n hn =>
      hnames n (List.mem_flatMap.2 ⟨g, hg, hn⟩)
    refine ⟨hnames _ (by simp [FieldDef.names, fieldOf]),
      hnames _ (by simp [FieldDef.names, fieldOf, useOf]), fun a ha => ?_⟩
    obtain ⟨v, hv, rfl⟩ := List.mem_map.1 ha
    refine hinput v fun n hn => hnames n ?_
    exact List.mem_append_right _ (List.mem_flatMap.2 ⟨v, hv, hn⟩)
  intro f hf
  cases shape with
  | object interfaces fields => exact hfield fields h f hf
  | interface interfaces fields => exact hfield fields h f hf
  | input fields =>
    obtain ⟨v, hv, rfl⟩ := List.mem_map.1 hf
    obtain ⟨hname, htype⟩ := hinput v fun n hn => h n (List.mem_flatMap.2 ⟨v, hv, hn⟩)
    exact ⟨hname, htype, by simp [inputFieldOf]⟩
  | _ => cases hf

theorem isName_of_mem_shapeValues {shape : TypeShape} (h : ∀ n ∈ shape.names, IsName n) :
    ∀ v ∈ shapeValues shape, IsName v := by
  intro v hv
  cases shape with
  | enum values => exact h v hv
  | _ => cases hv

theorem isName_of_mem_unionNames {shape : TypeShape} (h : ∀ n ∈ shape.names, IsName n) :
    ∀ m ∈ unionNames shape, IsName m := by
  intro m hm
  cases shape with
  | union members => exact h m hm
  | _ => cases hm

/-- What is gathered for a definition of a named document is named, if that holds of what each
definition and extension lists. -/
theorem forall_mem_gather {α : Type} {list : TypeShape → List α} {P : α → Prop} {d : Document}
    (hd : d.IsNamed) (hlist : ∀ shape : TypeShape, (∀ n ∈ shape.names, IsName n) →
      ∀ x ∈ list shape, P x) {name : String} {base : TypeShape}
    (hbase : (name, base) ∈ definitions d) :
    IsName name ∧ ∀ x ∈ gather list (extensions d) name base, P x := by
  refine ⟨isName_of_mem_part hd (List.mem_append_left _ hbase) name (by simp), fun x hx => ?_⟩
  obtain ⟨shape, hs, hx⟩ := exists_part_of_mem_gather hbase hx
  exact hlist shape (fun n hn => isName_of_mem_part hd hs n (by simp [hn])) x hx

theorem merged_isNamed {d : Document} (hd : d.IsNamed) : (merged d).IsNamed := by
  have hfields : ∀ shape : TypeShape, (∀ n ∈ shape.names, IsName n) →
      ∀ f ∈ shapeFields (declared d) shape, f.IsNamed := fun _ => isNamed_of_mem_shapeFields
  have hvalues : ∀ shape : TypeShape, (∀ n ∈ shape.names, IsName n) →
      ∀ v ∈ shapeValues shape, IsName v := fun _ => isName_of_mem_shapeValues
  have hmembers : ∀ shape : TypeShape, (∀ n ∈ shape.names, IsName n) →
      ∀ m ∈ unionNames shape, IsName m := fun _ => isName_of_mem_unionNames
  constructor
  · intro t ht
    obtain ⟨x, hx, hxt⟩ := List.mem_filterMap.1 ht
    cases x with
    | type description name directives base =>
      have hbase := mem_definitions.2 ⟨_, _, hx⟩
      cases base <;> cases hxt <;> exact forall_mem_gather hd hfields hbase
    | _ => cases hxt
  · intro t ht
    obtain ⟨x, hx, hxt⟩ := List.mem_filterMap.1 ht
    cases x with
    | type description name directives base =>
      have hbase := mem_definitions.2 ⟨_, _, hx⟩
      cases base <;> cases hxt
      exact forall_mem_gather hd hfields hbase
    | _ => cases hxt
  · intro e he
    obtain ⟨x, hx, hxe⟩ := List.mem_filterMap.1 he
    cases x with
    | type description name directives base =>
      have hbase := mem_definitions.2 ⟨_, _, hx⟩
      cases base <;> cases hxe
      exact forall_mem_gather hd hvalues hbase
    | _ => cases hxe
  · intro u hu
    obtain ⟨x, hx, hxu⟩ := List.mem_filterMap.1 hu
    cases x with
    | type description name directives base =>
      have hbase := mem_definitions.2 ⟨_, _, hx⟩
      cases base <;> cases hxu
      exact forall_mem_gather hd hmembers hbase
    | _ => cases hxu

theorem isNamed_of_ofDocument {d : Document} (hd : d.IsNamed) {s : Schema}
    (h : ofDocument d = .ok s) : s.IsNamed := by
  rw [(merged_of_ofDocument h).1]
  exact merged_isNamed hd

end ResolverKit.Schema
