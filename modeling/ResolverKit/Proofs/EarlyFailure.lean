import ResolverKit.Proofs.Run

/-!
# Runs that fail before they write

A run reads and generates everything before it writes anything.  So a run that ends with an error
leaves the tree exactly as it was, unless the error is that an output file cannot be written
(`run_leaves_tree`).  What can go wrong earlier is listed in `Generates`: the settings, the schema
with its imports, the layout, the models and the code have to be there.

One half of the argument is `ensures_prepare`: preparing changes no tree.  The other half is that
behind it nothing fails but a file that cannot be written (`ensures_write_of_writable`).
-/

namespace ResolverKit.Command

open Output
open ResolverKit.Command.Action (Ensures)

/-! ## Failures of writing -/

/-- How the scaffolds of a project are written. -/
def writeOptions (a : Arguments) (output : Settings.OutputSettings) : WriteOptions :=
  ⟨output.resolversDir, output.typesPath, a.force⟩

/-- All files can be written: the text of the types file has an encoding, and there is a place for
it and, behind it, for the scaffolds that are not skipped. -/
structure IsWritable (t : FileTree) (a : Arguments) (p : Prepared) : Prop where
  encoding : p.encodable = true
  types : (writeTypes t p.code.types p.output.typesPath).2 = none
  scaffolds : (writeResolvers (writeTypes t p.code.types p.output.typesPath).1 p.code.resolvers
    (writeOptions a p.output)).error = none

/-- The run has everything that it needs, but some output file cannot be written. -/
def FailsToWrite (t : FileTree) (args : List String) : Prop :=
  ∃ a project code, readArguments t args = .ok a ∧ Generates t a project code ∧
    ¬ IsWritable t a ⟨project.output, code, hasEncodableModels project⟩

/-- Writing does not fail if every file can be written. -/
theorem ensures_write_of_writable {t : FileTree} {a : Arguments} {p : Prepared}
    (h : IsWritable t a p) :
    Ensures (· = t) (write .plain a.force p) (fun _ _ => True) (fun _ => False) := by
  obtain ⟨output, code, encodable⟩ := p
  obtain ⟨rfl, htypes, hscaffolds⟩ := h
  have hwritten : ∀ {before : FileTree → Prop} {e : Option WriteError}, e = none →
      Ensures before (Action.written e) (fun _ => before) (fun _ => False) := by
    rintro before _ rfl
    exact .pure fun _ ht => ht
  unfold write
  refine .bind .tree fun t1 => .assume (fun _ h => h.1.trans h.2) ?_
  rintro rfl
  simp only [Writer.plain, if_true] at htypes hscaffolds ⊢
  cases hw : writeTypes t1 code.types output.typesPath with
  | mk t2 e =>
    rw [hw] at htypes hscaffolds
    refine .bind .modify fun _ => .bind (hwritten htypes) fun _ => ?_
    refine .bind .print fun _ => .bind .modify fun _ => ?_
    exact .bind (hwritten hscaffolds) fun _ => .pure fun _ _ => trivial

/-! ## Whole runs -/

/-- A run that has begun to write ends well if every file can be written. -/
theorem run_perform_of_writable {a : Arguments} {p : Prepared} {s s' : Session}
    (hprepare : (prepare a).run.run s = (.ok p, s')) (h : IsWritable s'.tree a p) :
    ∃ s'', (perform .plain a).run.run s = (.ok (), s'') := by
  have hwrite := ensures_write_of_writable h
  unfold perform
  rw [run_bind, hprepare]
  simp only
  rw [run_bind]
  cases hw : (write .plain a.force p).run.run s' with
  | mk r s'' =>
    cases r with
    | error e => exact (hwrite.error _ _ _ rfl hw).elim
    | ok skipped => cases skipped <;> exact ⟨_, rfl⟩

/-- What fails before anything is written leaves the tree as it was. -/
theorem tree_of_perform_error {t : FileTree} {args : List String} {a : Arguments}
    {e : Failure} {s : Session} (ha : readArguments t args = .ok a)
    (hperform : (perform .plain a).run.run ⟨t, []⟩ = (.error e, s))
    (hwrite : ¬ FailsToWrite t args) : s.tree = t := by
  have hprepare := @ensures_prepare a t
  cases hp : (prepare a).run.run ⟨t, []⟩ with
  | mk r s' =>
    cases r with
    | error e' =>
      have herror : (perform .plain a).run.run ⟨t, []⟩ = (.error e', s') := by
        unfold perform
        rw [run_bind, hp]
      rw [herror] at hperform
      obtain ⟨-, rfl⟩ := Prod.mk.inj hperform
      exact hprepare.error _ _ _ rfl hp
    | ok p =>
      obtain ⟨htree, project, code, hgenerates, rfl⟩ := hprepare.ok _ _ _ rfl hp
      -- everything is there, so that an error could only be one of writing
      by_cases hwritable : IsWritable t a ⟨project.output, code, hasEncodableModels project⟩
      · rw [← htree] at hwritable
        obtain ⟨s'', hok⟩ := run_perform_of_writable hp hwritable
        rw [hok] at hperform
        cases hperform
      · exact absurd ⟨a, project, code, ha, hgenerates, hwritable⟩ hwrite

/-- A run that does not end well leaves the tree exactly as it was, unless some output file cannot
be written. -/
theorem run_leaves_tree {t : FileTree} {args : List String} (hend : (run t args).ending ≠ .exit 0)
    (hwrite : ¬ FailsToWrite t args) : (run t args).tree = t := by
  unfold run runWith at hend ⊢
  cases ha : readArguments t args with
  | error e => cases e <;> rfl
  | ok a =>
    simp only [ha] at hend ⊢
    cases hnotice : a.notice with
    | some n => rfl
    | none =>
      simp only [hnotice] at hend ⊢
      cases hperform : (perform .plain a).run.run ⟨t, []⟩ with
      | mk r s =>
        simp only [hperform] at hend ⊢
        cases r with
        | ok u => exact absurd rfl hend
        | error e =>
          have htree := tree_of_perform_error ha hperform hwrite
          cases e <;> exact htree

/-- A project in the directory `work` that was generated once, and whose schema is no longer one. -/
def brokenProject : FileTree :=
  ⟨.dir [("work", .dir
      [("graphqlgen.yml", .file (.text
        "{language: flow, input: {schema: a}, output: {types: t, resolvers: r}}")),
       ("a", .file (.text "type User \x7b name \x7d")), ("t", .file (.text "// generated"))])],
    ["work"]⟩

/-- The settings of that project can be read, its schema cannot; even a run that is asked to
overwrite leaves the generated file alone. -/
theorem run_leaves_brokenProject :
    (run brokenProject ["-f"]).ending = .exit 1 ∧ ¬ FailsToWrite brokenProject ["-f"] ∧
      (run brokenProject ["-f"]).tree = brokenProject := by
  have hending : (run brokenProject ["-f"]).ending = .exit 1 := by decide +kernel
  have hwrite : ¬ FailsToWrite brokenProject ["-f"] := by
    rintro ⟨a, project, code, ha, ⟨hproject, document, -, -, hdocument, -⟩, -⟩
    have harguments : (readArguments brokenProject ["-f"]).toOption.map (·.configPath) =
        some "graphqlgen.yml" := by decide +kernel
    rw [ha] at harguments
    have hpath : a.configPath = "graphqlgen.yml" := Option.some.inj harguments
    have hschema : (Settings.loadProject brokenProject "graphqlgen.yml").toOption.map
        (·.input.schemaPath) = some "a" := by decide +kernel
    rw [← hpath, hproject] at hschema
    have hfile : project.input.schemaPath = "a" := Option.some.inj hschema
    have hload : (Import.loadDocument brokenProject "a").isOk = false := by decide +kernel
    rw [← hfile, hdocument] at hload
    cases hload
  exact ⟨hending, hwrite, run_leaves_tree (by rw [hending]; decide) hwrite⟩

end ResolverKit.Command
