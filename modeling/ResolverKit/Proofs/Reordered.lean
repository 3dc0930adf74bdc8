import ResolverKit.Proofs.Names

/-!
# The order of definitions

Two documents that hold the same definitions in another order are accepted together, and their
schemas have the same entries; only the order in which these are listed is that of the definitions
(`ofDocument_reordered`).  The extensions of each single type have to keep their order, because
fields, values and members are added one extension after the other.

Nothing is followed through the extraction here.  Both documents are compared through the rules of
`Violation` and the merged document, which speak of the kinds of names and of the extensions of one
type, and neither of these depends on where the definitions stand.
-/

namespace ResolverKit.Schema

open Sdl (TypeKind TypeShape Definition Document StringLit)

/-! ## Reordering -/

def extendedName? : Definition → Option String
  | .extendType name _ _ => some name
  | _ => none

/-- The second document holds the definitions of the first in another order that keeps the order of
the extensions of each single type. -/
structure Reordered (d d' : Document) : Prop where
  perm : d.Perm d'
  extensions : ∀ name, d.filter (extendedName? · = some name) =
    d'.filter (extendedName? · = some name)

theorem Reordered.symm {d d' : Document} (h : Reordered d d') : Reordered d' d :=
  ⟨h.perm.symm, fun name => (h.extensions name).symm⟩

def extensionShape? : Definition → Option TypeShape
  | .extendType _ _ shape => some shape
  | _ => none

/-- The extensions of a type are found in the document itself. -/
theorem extensionsOf_extensions (d : Document) (name : String) :
    extensionsOf (extensions d) name =
      (d.filter (extendedName? · = some name)).filterMap extensionShape? := by
  unfold extensionsOf extensions
  rw [List.filterMap_filterMap, List.filterMap_filter]
  congr 1
  funext x
  cases x with
  | extendType n directives shape => simp [extension?, extendedName?, extensionShape?]
  | _ => rfl

section

variable {d d' : Document} (h : Reordered d d')

include h

theorem Reordered.extensionsOf_eq (name : String) :
    extensionsOf (Schema.extensions d) name = extensionsOf (Schema.extensions d') name := by
  rw [extensionsOf_extensions, extensionsOf_extensions, h.extensions]

theorem Reordered.definitions_perm : (definitions d).Perm (definitions d') :=
  h.perm.filterMap definition?

theorem Reordered.extensions_perm : (Schema.extensions d).Perm (Schema.extensions d') :=
  h.perm.filterMap extension?

theorem Reordered.declared_perm : (declared d).Perm (declared d') := h.definitions_perm.map _

theorem Reordered.typeNames_perm : (typeNames d).Perm (typeNames d') := h.declared_perm.map _

end

/-! ## Rules -/

/-- An extension of a type, with what comes before it among the extensions of that type, is found
again where these extensions are the same. -/
theorem exists_split_of_extensionsOf_eq {exts exts' : List (String × TypeShape)} {name : String}
    (h : extensionsOf exts name = extensionsOf exts' name)
    {before behind : List (String × TypeShape)} {shape : TypeShape}
    (hsplit : exts = before ++ (name, shape) :: behind) :
    ∃ before' behind', exts' = before' ++ (name, shape) :: behind' ∧
      ∀ earlier, (name, earlier) ∈ before → (name, earlier) ∈ before' := by
  have hself : extensionsOf ((name, shape) :: behind) name = shape :: extensionsOf behind name := by
    simp [extensionsOf]
  rw [hsplit, extensionsOf_append, hself] at h
  obtain ⟨front, rest, rfl, hfront, hrest⟩ := List.filterMap_eq_append_iff.1 h.symm
  obtain ⟨others, ⟨n, s⟩, behind', rfl, hothers, hs, -⟩ := List.filterMap_eq_cons_iff.1 hrest
  obtain ⟨rfl, rfl⟩ : n = name ∧ s = shape := by simpa using hs
  refine ⟨front ++ others, behind', by simp, fun earlier hm => List.mem_append_left _ ?_⟩
  rw [← mem_extensionsOf] at hm ⊢
  rwa [extensionsOf, hfront]

theorem duplicate_of_perm {name : String} {names names' : List String} (h : names.Perm names')
    (hname : List.Duplicate name names) : List.Duplicate name names' := by
  rw [List.duplicate_iff_two_le_count] at hname ⊢
  rwa [← h.count_eq]

/-- A declaration that breaks a rule does so wherever the definitions stand. -/
theorem Violation.reordered {d d' : Document} (h : Reordered d d') {label : String}
    (hv : Violation d label) : Violation d' label := by
  have hparts := h.definitions_perm.append h.extensions_perm
  cases hv with
  | operation hx => exact .operation (h.perm.mem_iff.1 hx)
  | fragment hx => exact .fragment (h.perm.mem_iff.1 hx)
  | definedTwice hname => exact .definedTwice (duplicate_of_perm h.typeNames_perm hname)
  | nestedList hm hu hnested => exact .nestedList (hparts.mem_iff.1 hm) hu hnested
  | unknownType hm hu hnames hbuiltin =>
    exact .unknownType (hparts.mem_iff.1 hm) hu (mt h.typeNames_perm.mem_iff.2 hnames) hbuiltin
  | notAnObject hm hmember hobject =>
    exact .notAnObject (hparts.mem_iff.1 hm) hmember (mt h.declared_perm.mem_iff.2 hobject)
  | strayExtension hm hscalar hstray =>
    exact .strayExtension (h.extensions_perm.mem_iff.1 hm) hscalar
      (mt h.declared_perm.mem_iff.2 hstray)
  | fieldDeclaredTwice hsplit hfield he hfield' =>
    obtain ⟨before', behind', hsplit', hbefore⟩ :=
      exists_split_of_extensionsOf_eq (h.extensionsOf_eq _) hsplit
    refine .fieldDeclaredTwice hsplit' hfield ?_ hfield'
    rcases List.mem_append.1 he with he | he
    · exact List.mem_append_left _ (h.definitions_perm.mem_iff.1 he)
    · exact List.mem_append_right _ (hbefore _ he)

/-- A document that breaks no rule is accepted. -/
theorem exists_ok_iff (d : Document) :
    (∃ s, ofDocument d = .ok s) ↔ ∀ label, ¬ Violation d label := by
  constructor
  · rintro ⟨s, hs⟩
    exact (merged_of_ofDocument hs).2
  · intro hnone
    have hj := ofDocument_judges d
    cases hd : ofDocument d with
    | ok s => exact ⟨s, rfl⟩
    | error e =>
      rw [hd] at hj
      cases hj with
      | fail hl => exact absurd hl (hnone _)

/-! ## Merged documents -/

/-- What is gathered for a type depends on the extensions of that type only. -/
theorem gather_congr {α : Type} {list : TypeShape → List α} {exts exts' : List (String × TypeShape)}
    {name : String} (h : extensionsOf exts name = extensionsOf exts' name) (shape : TypeShape) :
    gather list exts name shape = gather list exts' name shape := by
  rw [gather, gather, h]

theorem gatherInterfaces_congr {exts exts' : List (String × TypeShape)} {name : String}
    (h : extensionsOf exts name = extensionsOf exts' name) (shape : TypeShape) :
    gatherInterfaces exts name shape = gatherInterfaces exts' name shape := by
  rw [gatherInterfaces, gatherInterfaces, h]

/-- Fields depend on the kinds of names only. -/
theorem shapeFields_congr {kinds kinds' : Kinds}
    (h : ∀ name, kinds.lookup name = kinds'.lookup name) :
    shapeFields kinds = shapeFields kinds' := by
  have huse : useOf kinds = useOf kinds' := by
    funext ref
    rw [useOf, useOf, h]
  have hargument : argumentOf kinds = argumentOf kinds' := by
    funext v
    rw [argumentOf, argumentOf, huse]
  have hfield : fieldOf kinds = fieldOf kinds' := by
    funext f
    rw [fieldOf, fieldOf, huse, hargument]
  have hinput : inputFieldOf kinds = inputFieldOf kinds' := by
    funext v
    rw [inputFieldOf, inputFieldOf, huse]
  funext shape
  cases shape <;> simp [shapeFields, hfield, hinput]

/-- The entry that a definition becomes, whatever its collection. -/
def describedEntry (d : Document) : Definition → Option Entry
  | .type description name _ shape =>
    some (mergedEntry (declared d) (extensions d) description name shape)
  | _ => none

/-- The schema of a document lists the entries of its definitions. -/
theorem merged_eq_ofEntries (d : Document) :
    merged d = ofEntries (d.filterMap (describedEntry d)) :=
  (ofEntries_mergedEntries d).symm

/-- A definition becomes the same entry in both documents. -/
theorem Reordered.describedEntry_eq {d d' : Document} (h : Reordered d d')
    (hd : (typeNames d).Nodup) : describedEntry d = describedEntry d' := by
  have hlookup : ∀ name, (declared d).lookup name = (declared d').lookup name := by
    intro name
    have hd' : (typeNames d').Nodup := h.typeNames_perm.nodup_iff.1 hd
    refine Option.ext fun kind => ?_
    rw [lookup_eq_some_iff_mem hd, lookup_eq_some_iff_mem hd', h.declared_perm.mem_iff]
  funext x
  cases x with
  | type description name directives shape =>
    have hexts := h.extensionsOf_eq name
    unfold describedEntry mergedEntry
    simp only [shapeFields_congr hlookup, gather_congr hexts, gatherInterfaces_congr hexts]
  | _ => rfl

/-! ## Schemas -/

/-- Each collection of the second schema holds the entries of the first. -/
structure SameEntries (s s' : Schema) : Prop where
  types : s.types.Perm s'.types
  enums : s.enums.Perm s'.enums
  unions : s.unions.Perm s'.unions
  inputs : s.inputs.Perm s'.inputs
  scalars : s.scalars.Perm s'.scalars

theorem sameEntries_ofEntries {es es' : List Entry} (h : es.Perm es') :
    SameEntries (ofEntries es) (ofEntries es') :=
  ⟨h.filterMap _, h.filterMap _, h.filterMap _, h.filterMap _, h.filterMap _⟩

/-- The names of the types of these kinds, in the order of their definitions. -/
def namesOfKinds (kinds : List TypeKind) (d : Document) : List String :=
  ((declared d).filter fun (_, kind) => kinds.contains kind).map (·.1)

/-- Each collection lists its entries in the order in which their definitions stand. -/
structure InOrder (d : Document) (s : Schema) : Prop where
  types : s.types.map (·.name) = namesOfKinds [.object, .interface] d
  enums : s.enums.map (·.name) = namesOfKinds [.enum] d
  unions : s.unions.map (·.name) = namesOfKinds [.union] d
  inputs : s.inputs.map (·.name) = namesOfKinds [.input] d
  scalars : s.scalars.map (·.name) = namesOfKinds [.scalar] d

theorem inOrder_merged (d : Document) : InOrder d (merged d) := by
  have hnames : ∀ {α : Type} {part : Definition → Option α} {name : α → String}
      {kinds : List TypeKind},
      (∀ x ∈ d, (part x).map name = (definition? x).bind fun p =>
        if kinds.contains p.2.kind then some p.1 else none) →
      (d.filterMap part).map name = namesOfKinds kinds d := by
    intro α part name kinds h
    rw [List.map_filterMap, List.filterMap_congr h, namesOfKinds, declared, definitions,
      List.filter_map, List.map_map, ← List.filterMap_eq_filter, ← List.filterMap_eq_map',
      List.filterMap_filterMap, List.filterMap_filterMap]
    congr 1
    funext x
    cases definition? x with
    | none => rfl
    | some p => by_cases hp : p.2.kind ∈ kinds <;> simp [Option.guard, hp]
  constructor <;> refine hnames fun x _ => ?_ <;>
    (cases x with
      | type description name directives shape => cases shape <;> rfl
      | _ => rfl)

/-- Where the definitions stand does not matter: of two documents with the same definitions, in
which the extensions of each single type come in the same order, both are accepted or none is.  The
schemas have the same entries, each in the order of the definitions; they are equal if the
definitions of types stand in the same order, wherever the extensions are. -/
theorem ofDocument_reordered {d d' : Document} (h : Reordered d d') :
    ((∃ s, ofDocument d = .ok s) ↔ ∃ s', ofDocument d' = .ok s') ∧
      ∀ s s', ofDocument d = .ok s → ofDocument d' = .ok s' →
        SameEntries s s' ∧ InOrder d s ∧ InOrder d' s' ∧
          (d.filter (definition? · |>.isSome) = d'.filter (definition? · |>.isSome) → s = s') := by
  have haccepted : (∃ s, ofDocument d = .ok s) ↔ ∃ s', ofDocument d' = .ok s' := by
    rw [exists_ok_iff, exists_ok_iff]
    exact ⟨fun hnone label hv => hnone label (hv.reordered h.symm),
      fun hnone label hv => hnone label (hv.reordered h)⟩
  refine ⟨haccepted, fun s s' hs hs' => ?_⟩
  obtain ⟨rfl, hnone⟩ := merged_of_ofDocument hs
  obtain ⟨rfl, -⟩ := merged_of_ofDocument hs'
  have hentry := h.describedEntry_eq (nodup_typeNames hnone)
  refine ⟨?_, inOrder_merged d, inOrder_merged d', fun hdefinitions => ?_⟩
  · rw [merged_eq_ofEntries, merged_eq_ofEntries, hentry]
    exact sameEntries_ofEntries (h.perm.filterMap _)
  · have hentries : ∀ d₁ d₂ : Document, d₂.filterMap (describedEntry d₁) =
        (d₂.filter (definition? · |>.isSome)).filterMap (describedEntry d₁) := by
      intro d₁ d₂
      rw [List.filterMap_filter]
      congr 1
      funext x
      cases x <;> rfl
    rw [merged_eq_ofEntries, merged_eq_ofEntries, ← hentry, hentries d d, hentries d d',
      hdefinitions]

/-- The definition of one more object type. -/
def teamDefinition : Definition :=
  .type none "Team" [] (.object [] [⟨none, "title", [], .named "String" false, []⟩])

/-- The schema of `extendedDocument` with these object types. -/
def teamSchema (types : List ObjectType) : Schema := { extendedSchema with types }

/-- What the definition of the further object type becomes. -/
def teamType : ObjectType :=
  ⟨"Team", false, [⟨"title", ⟨"String", .scalar, .one, false⟩, [], none⟩], [], none⟩

/-- The further object type may stand in front of a document with extensions or behind it. -/
theorem ofDocument_teamDefinition :
    Reordered (teamDefinition :: extendedDocument) (extendedDocument ++ [teamDefinition]) ∧
      ofDocument (teamDefinition :: extendedDocument) =
        .ok (teamSchema (teamType :: extendedSchema.types)) ∧
      ofDocument (extendedDocument ++ [teamDefinition]) =
        .ok (teamSchema (extendedSchema.types ++ [teamType])) ∧
      SameEntries (teamSchema (teamType :: extendedSchema.types))
        (teamSchema (extendedSchema.types ++ [teamType])) ∧
      InOrder (teamDefinition :: extendedDocument)
        (teamSchema (teamType :: extendedSchema.types)) ∧
      InOrder (extendedDocument ++ [teamDefinition])
        (teamSchema (extendedSchema.types ++ [teamType])) := by
  have h : Reordered (teamDefinition :: extendedDocument)
      (extendedDocument ++ [teamDefinition]) := by
    refine ⟨(List.perm_append_singleton _ _).symm, fun name => ?_⟩
    simp [teamDefinition, extendedName?]
  obtain ⟨hsame, hfront, hbehind, -⟩ := (ofDocument_reordered h).2 _ _ rfl rfl
  exact ⟨h, rfl, rfl, hsame, hfront, hbehind⟩

end ResolverKit.Schema
