import ResolverKit.Proofs.FileReading

/-!
# The blocks of a types file

Every part of a types file closes the blocks that it opens, so the place of a statement in the
file is its place in its own part (`TypesFile.place_statements`).  What belongs to the resolvers
of a type stands in the blocks `lang.groupBlocks type`, a namespace or none.
-/

namespace ResolverKit.Code

/-! ## Statements without blocks -/

theorem isFlat_alias (name : String) (type : List Token) : (Statement.alias name type).IsFlat :=
  fun _ => rfl

theorem isFlat_asks (name parent : String) : (Statement.asks name parent).IsFlat := fun _ => rfl

theorem isFlat_entry {name : String} {optional : Bool} {type : List Token}
    (h : type.getLast? ≠ some (.mark '{')) : (Statement.entry name optional type).IsFlat := by
  intro blocks
  rw [Statement.blocksBehind, if_neg h]

theorem TypeExpr.getLast?_tokens_ne (lang : Language) (t : TypeExpr) :
    (t.tokens lang ++ lang.endTokens).getLast? ≠ some (.mark '{') := by
  obtain ⟨base, _ | (_ | _), _ | _⟩ := t <;> cases lang <;>
    simp [TypeExpr.tokens, Language.optionalTokens, Language.nullableTokens, Language.endTokens]

theorem Member.isFlat_statement (lang : Language) (m : Member) : (m.statement lang).IsFlat :=
  isFlat_entry (TypeExpr.getLast?_tokens_ne lang m.type)

theorem isFlat_resolversEntry (lang : Language) (type : String) :
    (Statement.entry type false (resolversTypeTokens lang type ++ lang.endTokens)).IsFlat := by
  apply isFlat_entry
  cases lang <;> simp [resolversTypeTokens, Language.endTokens]

/-! ## Blocks -/

/-- A block of statements none of which opens another one. -/
theorem place_flatBlock {keyword name : String} {ss : List Statement} (h : ∀ s ∈ ss, s.IsFlat)
    (blocks : List String) :
    place blocks (.opens keyword name :: ss ++ [.closes]) =
      (blocks, .opens keyword name) :: ss.map (blocks ++ [name], ·) ++
        [(blocks ++ [name], .closes)] := by
  rw [place_block (closes_of_isFlat h), place_of_isFlat h]

theorem closes_flatBlock {keyword name : String} {ss : List Statement} (h : ∀ s ∈ ss, s.IsFlat) :
    Closes (.opens keyword name :: ss ++ [.closes]) := closes_block (closes_of_isFlat h)

theorem isFlat_of_mem_members {lang : Language} {members : List Member} :
    ∀ s ∈ members.map (Member.statement lang), s.IsFlat := by
  intro s hs
  obtain ⟨m, -, rfl⟩ := List.mem_map.1 hs
  exact m.isFlat_statement lang

theorem closes_recordStatements (lang : Language) (name : String) (members : List Member) :
    Closes (recordStatements lang name members) := closes_flatBlock isFlat_of_mem_members

theorem place_recordStatements (lang : Language) (name : String) (members : List Member)
    (blocks : List String) :
    place blocks (recordStatements lang name members) =
      (blocks, .opens lang.recordKeyword name) ::
        (members.map (Member.statement lang)).map (blocks ++ [name], ·) ++
        [(blocks ++ [name], .closes)] := place_flatBlock isFlat_of_mem_members blocks

/-! ## Resolvers -/

theorem isFlat_of_mem_delegated {g : ResolverGroup} :
    ∀ s ∈ g.delegated.map (Statement.asks · g.parent), s.IsFlat := by
  intro s hs
  obtain ⟨f, -, rfl⟩ := List.mem_map.1 hs
  exact isFlat_asks f g.parent

theorem closes_defaultStatements (lang : Language) (g : ResolverGroup) :
    Closes (defaultStatements lang g) := closes_flatBlock isFlat_of_mem_delegated

theorem closes_argumentRecord (lang : Language) (g : ResolverGroup) (r : Resolver) :
    Closes (if r.arguments.isEmpty then []
      else recordStatements lang (lang.argsName g.type r.field) r.arguments) := by
  split
  · exact .nil
  · exact closes_recordStatements lang _ _

theorem closes_argumentStatements (lang : Language) (g : ResolverGroup) :
    Closes (argumentStatements lang g) := .flatMap fun r _ => closes_argumentRecord lang g r

theorem isFlat_of_mem_signatures {lang : Language} {g : ResolverGroup} :
    ∀ s ∈ signatureStatements lang g, s.IsFlat := by
  intro s hs
  obtain ⟨r, -, rfl⟩ := List.mem_map.1 hs
  exact isFlat_alias _ _

theorem closes_groupTypeStatements (lang : Language) (g : ResolverGroup) :
    Closes (groupTypeStatements lang g) := closes_recordStatements lang _ _

theorem closes_groupBody (lang : Language) (g : ResolverGroup) : Closes (groupBody lang g) :=
  (((closes_defaultStatements lang g).append (closes_argumentStatements lang g)).append
    (closes_of_isFlat isFlat_of_mem_signatures)).append (closes_groupTypeStatements lang g)

/-- The blocks around what belongs to the resolvers of a type. -/
def Language.groupBlocks : Language → (type : String) → List String
  | .typescript, type => [type ++ "Resolvers"]
  | .flow, _ => []

theorem closes_groupStatements (lang : Language) (g : ResolverGroup) :
    Closes (groupStatements lang g) := by
  cases lang with
  | typescript => exact closes_block (closes_groupBody .typescript g)
  | flow => exact closes_groupBody .flow g

theorem mem_place_groupStatements {lang : Language} {g : ResolverGroup} {p : Placed}
    (h : p ∈ place (lang.groupBlocks g.type) (groupBody lang g)) :
    p ∈ place [] (groupStatements lang g) := by
  cases lang with
  | typescript =>
    show p ∈ place [] (.opens "namespace" (g.type ++ "Resolvers") ::
      groupBody .typescript g ++ [.closes])
    rw [place_block (closes_groupBody .typescript g)]
    exact List.mem_append_left _ (List.mem_cons_of_mem _ h)
  | flow => exact h

theorem place_groupBody (lang : Language) (g : ResolverGroup) (blocks : List String) :
    place blocks (groupBody lang g) =
      place blocks (defaultStatements lang g) ++
        g.resolvers.flatMap (fun r => place blocks <|
          if r.arguments.isEmpty then []
          else recordStatements lang (lang.argsName g.type r.field) r.arguments) ++
        (signatureStatements lang g).map (blocks, ·) ++
        place blocks (groupTypeStatements lang g) := by
  simp only [groupBody, List.append_assoc]
  rw [(closes_defaultStatements lang g).place_append,
    (closes_argumentStatements lang g).place_append,
    (closes_of_isFlat isFlat_of_mem_signatures).place_append, argumentStatements,
    Closes.place_flatMap fun r _ => closes_argumentRecord lang g r,
    place_of_isFlat isFlat_of_mem_signatures]

/-! ## The whole file -/

theorem isFlat_of_mem_index {lang : Language} {groups : List ResolverGroup} :
    ∀ s ∈ groups.map (fun g => Statement.entry g.type false
      (resolversTypeTokens lang g.type ++ lang.endTokens)), s.IsFlat := by
  intro s hs
  obtain ⟨g, -, rfl⟩ := List.mem_map.1 hs
  exact isFlat_resolversEntry lang g.type

theorem isFlat_of_mem_imports {f : TypesFile} : ∀ s ∈ importStatements f, s.IsFlat := by
  intro s hs
  simp only [importStatements, List.mem_append, List.mem_cons, List.not_mem_nil, or_false,
    List.mem_map] at hs
  rcases hs with (rfl | rfl) | ⟨g, -, rfl⟩ <;> exact fun _ => rfl

theorem isFlat_of_mem_reexports {f : TypesFile} : ∀ s ∈ reexportStatements f, s.IsFlat := by
  intro s hs
  unfold reexportStatements at hs
  split at hs
  · cases hs
  · obtain rfl := List.mem_singleton.1 hs
    exact fun _ => rfl

theorem isFlat_of_mem_choices {lang : Language} {cs : List Choice} :
    ∀ s ∈ cs.map (Choice.statement lang), s.IsFlat := by
  intro s hs
  obtain ⟨c, -, rfl⟩ := List.mem_map.1 hs
  exact isFlat_alias _ _

/-- What stands outside all blocks in front of the records. -/
def headStatements (lang : Language) (f : TypesFile) : List Statement :=
  importStatements f ++ reexportStatements f ++ f.enums.map (Choice.statement lang) ++
    f.unions.map (Choice.statement lang)

theorem isFlat_of_mem_head {lang : Language} {f : TypesFile} :
    ∀ s ∈ headStatements lang f, s.IsFlat := by
  intro s hs
  simp only [headStatements, List.mem_append] at hs
  rcases hs with ((hs | hs) | hs) | hs
  · exact isFlat_of_mem_imports s hs
  · exact isFlat_of_mem_reexports s hs
  · exact isFlat_of_mem_choices s hs
  · exact isFlat_of_mem_choices s hs

theorem closes_records (lang : Language) (f : TypesFile) :
    Closes (f.records.flatMap fun r => recordStatements lang r.name r.members) :=
  .flatMap fun r _ => closes_recordStatements lang r.name r.members

theorem closes_groups (lang : Language) (f : TypesFile) :
    Closes (f.groups.flatMap (groupStatements lang)) :=
  .flatMap fun g _ => closes_groupStatements lang g

/-- The parts of a types file, each of which closes what it opens. -/
theorem TypesFile.statements_eq (lang : Language) (f : TypesFile) :
    f.statements lang = headStatements lang f ++
      (f.records.flatMap (fun r => recordStatements lang r.name r.members) ++
        (f.groups.flatMap (groupStatements lang) ++ indexStatements lang f.groups)) := by
  simp only [TypesFile.statements, headStatements, List.append_assoc]

/-- The statements of a types file with the blocks they stand in. -/
theorem TypesFile.place_statements (lang : Language) (f : TypesFile) :
    place [] (f.statements lang) =
      (headStatements lang f).map ([], ·) ++
        f.records.flatMap (fun r => place [] (recordStatements lang r.name r.members)) ++
        f.groups.flatMap (fun g => place [] (groupStatements lang g)) ++
        place [] (indexStatements lang f.groups) := by
  rw [statements_eq, (closes_of_isFlat isFlat_of_mem_head).place_append,
    (closes_records lang f).place_append, (closes_groups lang f).place_append,
    Closes.place_flatMap fun r _ => closes_recordStatements lang r.name r.members,
    Closes.place_flatMap fun g _ => closes_groupStatements lang g,
    place_of_isFlat isFlat_of_mem_head]
  simp only [List.append_assoc]

end ResolverKit.Code
