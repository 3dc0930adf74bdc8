import ResolverKit.Proofs.References

/-!
# The scopes of a types file

Which names a types file binds, and where.  A name is bound by an import, under its local name, or
by a declaration, in the blocks around it.  `boundNames_ofPlan` lists all of them for the file of a
schema: two imports that every file has, the models, the types of the schema, for each object type
the names of its resolvers, and the type of all resolvers.
-/

namespace ResolverKit.Code

open Schema (Field ObjectType)
open Sdl (Document)

/-! ## Names that are bound -/

/-- The names that a statement binds where it stands. -/
def Statement.bound : Statement → List String
  | .imports items _ => items.map (·.2)
  | .alias name _ => [name]
  | .opens _ name => [name]
  | .constant name _ => [name]
  | _ => []

/-- The names that are bound, each with the blocks around it. -/
def boundNames (ps : List Placed) : List (List String × String) :=
  ps.flatMap fun (blocks, s) => s.bound.map (blocks, ·)

@[simp] theorem boundNames_nil : boundNames [] = [] := rfl

@[simp] theorem boundNames_cons (p : Placed) (ps : List Placed) :
    boundNames (p :: ps) = p.2.bound.map (p.1, ·) ++ boundNames ps := rfl

@[simp] theorem boundNames_append (ps qs : List Placed) :
    boundNames (ps ++ qs) = boundNames ps ++ boundNames qs := List.flatMap_append

theorem boundNames_flatMap {α : Type} (xs : List α) (f : α → List Placed) :
    boundNames (xs.flatMap f) = xs.flatMap fun x => boundNames (f x) := List.flatMap_assoc

/-- Statements in the same blocks. -/
theorem boundNames_map (blocks : List String) (ss : List Statement) :
    boundNames (ss.map (blocks, ·)) = (ss.flatMap Statement.bound).map (blocks, ·) := by
  induction ss with
  | nil => rfl
  | cons s r ih => simp [ih]

/-- Statements that bind nothing, in the same blocks. -/
theorem boundNames_of_silent {ss : List Statement} (h : ∀ s ∈ ss, s.bound = [])
    (blocks : List String) : boundNames (ss.map (blocks, ·)) = [] := by
  have hnone : ss.flatMap Statement.bound = [] := List.flatMap_eq_nil_iff.2 h
  rw [boundNames_map, hnone, List.map_nil]

/-! ## Parts of a types file -/

/-- A block whose statements bind nothing binds its own name. -/
theorem boundNames_flatBlock {keyword name : String} {ss : List Statement}
    (hflat : ∀ s ∈ ss, s.IsFlat) (h : ∀ s ∈ ss, s.bound = []) (blocks : List String) :
    boundNames (place blocks (.opens keyword name :: ss ++ [.closes])) = [(blocks, name)] := by
  rw [place_flatBlock hflat, boundNames_append, boundNames_cons, boundNames_of_silent h]
  rfl

theorem boundNames_record (lang : Language) (name : String) (members : List Member)
    (blocks : List String) :
    boundNames (place blocks (recordStatements lang name members)) = [(blocks, name)] := by
  refine boundNames_flatBlock isFlat_of_mem_members (fun s hs => ?_) blocks
  obtain ⟨m, -, rfl⟩ := List.mem_map.1 hs
  rfl

theorem boundNames_defaults (lang : Language) (g : ResolverGroup) (blocks : List String) :
    boundNames (place blocks (defaultStatements lang g)) =
      [(blocks, lang.defaultsName g.type)] := by
  refine boundNames_flatBlock isFlat_of_mem_delegated (fun s hs => ?_) blocks
  obtain ⟨f, -, rfl⟩ := List.mem_map.1 hs
  rfl

def ResolverGroup.names (lang : Language) (g : ResolverGroup) : List String :=
  lang.defaultsName g.type ::
    (g.resolvers.filter (!·.arguments.isEmpty)).map (fun r => lang.argsName g.type r.field) ++
    g.resolvers.map (fun r => lang.resolverName g.type r.field) ++ [lang.groupName g.type]

theorem boundNames_arguments (lang : Language) (g : ResolverGroup) (rs : List Resolver)
    (blocks : List String) :
    boundNames (rs.flatMap fun r => place blocks <|
      if r.arguments.isEmpty then []
      else recordStatements lang (lang.argsName g.type r.field) r.arguments) =
      (rs.filter (!·.arguments.isEmpty)).map fun r => (blocks, lang.argsName g.type r.field) := by
  induction rs with
  | nil => rfl
  | cons r rs ih =>
    rw [List.flatMap_cons, boundNames_append, ih]
    cases hr : r.arguments.isEmpty with
    | true => simp [hr, place]
    | false => simp [hr, boundNames_record]

theorem boundNames_groupBody (lang : Language) (g : ResolverGroup) (blocks : List String) :
    boundNames (place blocks (groupBody lang g)) = (g.names lang).map (blocks, ·) := by
  have hsignatures : (signatureStatements lang g).flatMap Statement.bound =
      g.resolvers.map fun r => lang.resolverName g.type r.field := by
    rw [signatureStatements, List.flatMap_map, List.map_eq_flatMap]
    rfl
  rw [place_groupBody, boundNames_append, boundNames_append, boundNames_append,
    boundNames_defaults, boundNames_arguments, boundNames_map, hsignatures, groupTypeStatements,
    boundNames_record]
  simp [ResolverGroup.names]

/-- The names that are bound for the resolvers of a type, with the namespace around them. -/
def ResolverGroup.bound : Language → ResolverGroup → List (List String × String)
  | .typescript, g => ([], Language.resolversName .typescript g.type) ::
      (g.names .typescript).map ([Language.resolversName .typescript g.type], ·)
  | .flow, g => (g.names .flow).map ([], ·)

theorem boundNames_group (lang : Language) (g : ResolverGroup) :
    boundNames (place [] (groupStatements lang g)) = g.bound lang := by
  cases lang with
  | typescript =>
    have hplace := @place_block "namespace" (Language.resolversName .typescript g.type) _
      (closes_groupBody .typescript g) []
    rw [groupStatements, hplace, boundNames_append, boundNames_cons, List.nil_append,
      boundNames_groupBody]
    simp [Statement.bound, ResolverGroup.bound]
  | flow => exact boundNames_groupBody .flow g []

theorem bound_head (lang : Language) (f : TypesFile) :
    (headStatements lang f).flatMap Statement.bound =
      ["GraphQLResolveInfo", "Context"] ++ f.models ++ f.enums.map (·.name) ++
        f.unions.map (·.name) := by
  have hchoices : ∀ cs : List Choice, (cs.map (Choice.statement lang)).flatMap Statement.bound =
      cs.map (·.name) := by
    intro cs
    rw [List.flatMap_map, List.map_eq_flatMap]
    rfl
  have hreexports : (reexportStatements f).flatMap Statement.bound = [] := by
    unfold reexportStatements
    split <;> rfl
  have himports : (importStatements f).flatMap Statement.bound =
      ["GraphQLResolveInfo", "Context"] ++ f.models := by
    rw [importStatements, List.flatMap_append, List.flatMap_map]
    rfl
  rw [headStatements, List.flatMap_append, List.flatMap_append, List.flatMap_append, hchoices,
    hchoices, hreexports, himports, List.append_nil]

theorem boundNames_index (lang : Language) (groups : List ResolverGroup) :
    boundNames (place [] (indexStatements lang groups)) = [([], "Resolvers")] := by
  refine boundNames_flatBlock isFlat_of_mem_index (fun s hs => ?_) []
  obtain ⟨g, -, rfl⟩ := List.mem_map.1 hs
  rfl

/-- The names that a types file binds. -/
theorem boundNames_statements (lang : Language) (f : TypesFile) :
    boundNames (place [] (f.statements lang)) =
      (["GraphQLResolveInfo", "Context"] ++ f.models ++ f.declared).map ([], ·) ++
        f.groups.flatMap (·.bound lang) ++ [([], "Resolvers")] := by
  have hrecords : f.records.flatMap (fun r =>
      boundNames (place [] (recordStatements lang r.name r.members))) =
      (f.records.map (·.name)).map ([], ·) := by
    rw [List.map_map, List.map_eq_flatMap]
    simp only [boundNames_record]
    rfl
  rw [TypesFile.place_statements, boundNames_append, boundNames_append, boundNames_append,
    boundNames_map, bound_head, boundNames_flatMap, hrecords, boundNames_flatMap, boundNames_index]
  simp only [boundNames_group, TypesFile.declared, List.map_append, List.append_assoc]

/-! ## The file of a schema -/

def resolverNames (lang : Language) (t : ObjectType) : List String :=
  lang.defaultsName t.name ::
    (t.fields.filter (!·.arguments.isEmpty)).map (fun f => lang.argsName t.name f.name) ++
    t.fields.map (fun f => lang.resolverName t.name f.name) ++ [lang.groupName t.name]

/-- The names among them that stand outside all blocks: the namespace in TypeScript, all in Flow. -/
def outerNames : Language → ObjectType → List String
  | .typescript, t => [Language.resolversName .typescript t.name]
  | .flow, t => resolverNames .flow t

/-- The names that are declared inside the namespace of an object type. -/
def innerNames : Language → ObjectType → List String
  | .typescript, t => resolverNames .typescript t
  | .flow, _ => []

theorem names_ofType (lang : Language) (p : Plan) (t : ObjectType) :
    (ResolverGroup.ofType lang p t).names lang = resolverNames lang t := by
  have hfilter : ((t.fields.map (Resolver.ofField lang p)).filter (!·.arguments.isEmpty)) =
      (t.fields.filter (!·.arguments.isEmpty)).map (Resolver.ofField lang p) := by
    rw [List.filter_map]
    congr 2
    funext f
    simp [Resolver.ofField, argumentMembers]
  simp only [ResolverGroup.names, ResolverGroup.ofType, hfilter, List.map_map]
  rfl

theorem bound_ofType (lang : Language) (p : Plan) (t : ObjectType) :
    (ResolverGroup.ofType lang p t).bound lang =
      (outerNames lang t).map ([], ·) ++
        (innerNames lang t).map ([lang.resolversName t.name], ·) := by
  cases lang with
  | typescript =>
    show _ :: ((ResolverGroup.ofType .typescript p t).names .typescript).map _ = _
    rw [names_ofType]
    rfl
  | flow =>
    show ((ResolverGroup.ofType .flow p t).names .flow).map _ = _
    rw [names_ofType]
    exact (List.append_nil _).symm

/-- The names that the types file of a schema binds. -/
theorem boundNames_ofPlan (lang : Language) (path : String) (s : Schema)
    (bindings : Model.Bindings) :
    boundNames (place [] ((TypesFile.ofPlan lang path (.of s bindings)).statements lang)) =
      (["GraphQLResolveInfo", "Context"] ++
        (TypesFile.ofPlan lang path (.of s bindings)).models ++ dataNames s).map ([], ·) ++
        s.objects.flatMap (fun t => (outerNames lang t).map ([], ·) ++
          (innerNames lang t).map ([lang.resolversName t.name], ·)) ++ [([], "Resolvers")] := by
  have hdeclared : (TypesFile.ofPlan lang path (.of s bindings)).declared = dataNames s := by
    simp [TypesFile.declared, TypesFile.ofPlan, Plan.of, dataNames, RecordType.ofInput,
      RecordType.ofType, Function.comp_def]
  have hgroups : (TypesFile.ofPlan lang path (.of s bindings)).groups =
      s.objects.map (ResolverGroup.ofType lang (.of s bindings)) := rfl
  rw [boundNames_statements, hdeclared, hgroups, List.flatMap_map]
  simp only [bound_ofType]

end ResolverKit.Code
