import ResolverKit.Command.Run

/-!
# What a run looks at

A run needs only a few places of a whole disk.  `lookups` names them, as far as the part of the
disk that is known already tells: the settings name the schema, the schema names its imports, and
the generated code names the files to write.
-/

namespace ResolverKit.Command

/-- A path and the directories on the way to it, from the root. -/
def wayTo (t : FileTree) (p : String) : List String :=
  let ss := (Path.segments (Path.join t.cwdPath p)).filter (· ≠ "")
  (List.range (ss.length + 1)).map fun n => Path.normalize ("/" ++ Path.ofSegments (ss.take n))

/-- The paths that the import statements in the files of a tree lead to. -/
def importPaths (t : FileTree) : List String :=
  (Import.filePaths t).flatMap fun p =>
    match Import.readText t p with
    | .ok text => (Import.statements text).map fun s => (Import.Link.ofStatement p s).request.path
    | .error _ => []

/-- The path of the schema, if the settings are there. -/
def schemaPath (t : FileTree) (a : Arguments) : List String :=
  match Settings.loadProject t a.configPath with
  | .ok project => [project.input.schemaPath]
  | .error _ => []

/-- The paths to write, if everything to read is there. -/
def outputPaths (t : FileTree) (a : Arguments) : List String :=
  match (prepare a).run.run ⟨t, []⟩ with
  | (.ok ⟨output, code, _⟩, _) =>
    output.typesPath :: output.resolversDir ::
      code.resolvers.map fun f => Path.join output.resolversDir f.path
  | (.error _, _) => []

/-- The paths that a run looks at, with the directories on the way to them. -/
def lookups (t : FileTree) (args : List String) : List String :=
  match readFrom .none args with
  | .ok a =>
    (a.configPath :: Settings.layoutFiles ++ schemaPath t a ++ importPaths t ++
      outputPaths t a).flatMap (wayTo t)
  | .error _ => []

end ResolverKit.Command
