import ResolverKit.Code.Language
import ResolverKit.Keyed
import ResolverKit.Settings.Text

/-!
# Settings of a project

What a project says about its generation: the target language, the schema with the models of its
types, and the places of the generated files.

    language: typescript
    input:
      schema: ./src/schema.graphql
      models:
        User: ./src/models.ts:UserModel
    output:
      types: ./src/generated/resolvers.ts
      resolvers: ./src/resolvers/

All problems of a file are told at once: those of the fields in their order, then those of entries
that belong to no field.
-/

namespace ResolverKit.Settings

open ConfigText (Atom Value)
open Text (CodeText)

/-! ## Sections -/

/-- The schema file, and the entries of the models by schema types. -/
structure InputSettings where
  schemaPath : String
  models : List (CodeText × CodeText)
  deriving DecidableEq, Repr

/-- The types file, and the directory of the scaffolds. -/
structure OutputSettings where
  typesPath : String
  resolversDir : String
  deriving DecidableEq, Repr

structure ProjectSettings where
  language : Code.Language
  input : InputSettings
  output : OutputSettings
  deriving DecidableEq, Repr

def readLanguage (v : Value) : Checked Code.Language := do
  let name ← readText v
  match name.string?.bind Code.Language.ofName? with
  | some lang => return lang
  | none =>
    problem ("Value error, unsupported language " ++ name.quoted ++ ", expected one of: " ++
      ", ".intercalate (Code.Language.all.map (·.name)))

/-- The problems of one model: first of its key, then of its entry. -/
def modelProblems (k : Atom) (v : Value) : List Problem :=
  ((Checked.under "[key]" (readText (.atom k))).problems ++ (readText v).problems).map
    (Problem.under k.keyText)

def readModels (v : Value) : Checked (List (CodeText × CodeText)) :=
  match v with
  | .mapping entries =>
    match entries.flatMap fun (k, v) => modelProblems k v with
    | [] => .ok <| Keyed.ofPairs <| entries.filterMap fun (k, v) =>
        match readText (.atom k), readText v with
        | .ok name, .ok entry => some (name, entry)
        | _, _ => none
    | ps => .error ps
  | _ => problem "Input should be a valid dictionary"

/-- The keys of a section: for every field the keys that it may have. -/
def inputKeys : List (List String) := [["schema", "schema_path"], ["models"]]
def outputKeys : List (List String) := [["types"], ["resolvers"]]
def projectKeys : List (List String) := [["language"], ["input"], ["output"]]

/-- A section with these fields, unless there are problems. -/
def settle {α : Type} (problems : List Problem) (fields : Option α) : Checked α :=
  match problems, fields with
  | [], some a => .ok a
  | ps, _ => .error ps

def readInput (v : Value) : Checked InputSettings :=
  match v with
  | .mapping entries =>
    if hasUnreadableKey entries then problem unreadable else
    let schema := required ["schema", "schema_path"] readSomeText entries
    let models := optional ["models"] readModels [] entries
    settle (schema.problems ++ models.problems ++ extraProblems inputKeys entries) do
      return ⟨← schema.toOption, ← models.toOption⟩
  | _ => problem "Input should be a valid dictionary or instance of InputConfig"

def readOutput (v : Value) : Checked OutputSettings :=
  match v with
  | .mapping entries =>
    if hasUnreadableKey entries then problem unreadable else
    let types := required ["types"] readSomeText entries
    let resolvers := required ["resolvers"] readSomeText entries
    settle (types.problems ++ resolvers.problems ++ extraProblems outputKeys entries) do
      return ⟨← types.toOption, ← resolvers.toOption⟩
  | _ => problem "Input should be a valid dictionary or instance of OutputConfig"

def readEntries (entries : List (Atom × Value)) : Checked ProjectSettings :=
  if hasUnreadableKey entries then problem unreadable else
  let language := required ["language"] readLanguage entries
  let input := required ["input"] readInput entries
  let output := required ["output"] readOutput entries
  settle (language.problems ++ input.problems ++ output.problems ++
      extraProblems projectKeys entries) do
    return ⟨← language.toOption, ← input.toOption, ← output.toOption⟩

/-! ## Files -/

/-- The name that a file with the settings of a project has unless another is given. -/
def projectFile : String := "graphqlgen.yml"

/-- A problem with its place, which is the whole file if no key names it. -/
def problemLine (p : Problem) : String :=
  let place := ".".intercalate p.place
  "  " ++ (if place = "" then "<root>" else place) ++ ": " ++ p.message

def ofValue (path : String) (v : Value) : Except SettingsError ProjectSettings :=
  match v with
  | .mapping entries =>
    (readEntries entries).mapError fun ps =>
      .invalid path ("Invalid " ++ path ++ ":\n" ++
        "\n".intercalate (ps.map problemLine))
  | _ => .error (.invalid path ("Invalid " ++ path ++ ": expected a mapping at the top level"))

/-- The settings in a file. -/
def loadProject (t : FileTree) (path : String) : Except SettingsError ProjectSettings := do
  if !t.isFile path then throw (.missing path)
  ofValue path (← readFile t path ("Invalid YAML in " ++ path ++ ": " ++ diagnostic))

end ResolverKit.Settings
