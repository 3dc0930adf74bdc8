import ResolverKit.Code.Generation
import ResolverKit.Command.Arguments
import ResolverKit.Command.Console
import ResolverKit.Import.Loader
import ResolverKit.Output.Links
import ResolverKit.Settings.Layout

/-!
# The command

`run` is one run of the command on a file tree: what it prints, how it ends, and the tree
afterwards.  Everything is read and generated before anything is written, so that an error in the
settings or in the schema leaves the tree as it is.  `runThrough` is a run where there are links.
-/

namespace ResolverKit.Command

/-! ## Actions -/

/-- An error that the command does not report. -/
inductive Crash
  | notText
  | badScalar (bad : ConfigText.BadScalar)
  | nullCharacter
  | surrogate
  | width (fault : Code.WidthFault)
  deriving DecidableEq, Repr

/-- Why a run ends early: an error that is reported, or one that is not. -/
inductive Failure
  | reported (message : String)
  | crash (c : Crash)
  deriving DecidableEq, Repr

/-- The tree as it is, and what has been printed. -/
structure Session where
  tree : FileTree
  printed : List Message
  deriving Repr

/-- A part of a run.  The session stays as it is when a failure comes. -/
abbrev Action := ExceptT Failure (StateM Session)

namespace Action

def tree : Action FileTree := return (← get).tree

def print (m : Message) : Action Unit := modify fun s => { s with printed := s.printed ++ [m] }

/-- Ends the run with this failure. -/
def fail {α : Type} (f : Failure) : Action α := throw f

/-- Takes a result whose error is reported. -/
def reporting {ε α : Type} (message : ε → String) (r : Except ε α) : Action α :=
  match r with
  | .ok a => return a
  | .error e => fail (.reported (message e))

/-- Takes settings. -/
def settings {α : Type} (r : Except Settings.SettingsError α) : Action α :=
  match r with
  | .ok a => return a
  | .error (.notText _) => fail (.crash .notText)
  | .error (.badScalar _ bad) => fail (.crash (.badScalar bad))
  | .error e => fail (.reported e.message)

/-- Takes a schema. -/
def schema {α : Type} (r : Except Import.LoadError α) : Action α :=
  match r with
  | .ok a => return a
  | .error (.notText _) => fail (.crash .notText)
  | .error e => fail (.reported e.message)

/-- Ends the run if something could not be written. -/
def written (e : Option Output.WriteError) : Action Unit :=
  match e with
  | none => return
  | some e =>
    if e.failure.cause = .nullCharacter then fail (.crash .nullCharacter)
    else fail (.reported e.message)

end Action

/-! ## The steps of a run -/

open ResolverKit.Command.Action

def fileMessage : Output.FileState × String → Message
  | (.skipped, path) => .warning ("Warning: file (" ++ path ++ ") already exists.")
  | (.written, path) => .success ("Code generated at " ++ path)

/-- The layout that the files in the working directory ask for, if it is wanted. -/
def findLayout (prettify : Bool) : Action (Option Code.LayoutOptions) := do
  if !prettify then return none
  let t ← tree
  match ← settings (Settings.loadLayout t t.cwdPath) with
  | some o =>
    print (.info "Found a prettier configuration to use")
    return some o
  | none => return some .standard

/-- What a run has prepared to write: the places, the code, and whether the code can be encoded.  A
model whose entry holds a surrogate is named in the code, which has no encoding then. -/
structure Prepared where
  output : Settings.OutputSettings
  code : Code.Generated
  encodable : Bool

/-- Reads everything and generates the code, without writing anything.  Code that is to be laid out
with a width that cannot be made is generated all the same, for what else may be wrong.  Surrogates
in the models are taken as the console shows them: they are neither colons nor blanks nor parts of
names. -/
def prepare (a : Arguments) : Action Prepared := do
  let t ← tree
  let detail (text : String) : Action Unit := if a.verbose then print (.plain text) else return
  let project ← settings (Settings.loadProject t a.configPath)
  detail ("Config: " ++ t.absolute a.configPath)
  let document ← schema (Import.loadDocument t project.input.schemaPath)
  detail ("Schema: " ++ project.input.schemaPath)
  let layout ← findLayout a.prettify
  let models := project.input.models
  let entries := models.map fun (type, entry) => (type.shown, Model.EntryValue.text entry.shown)
  let bindings ← reporting Model.ModelError.message
    (Model.bindAll t.cwdPath none project.output.typesPath entries)
  detail ("Models: " ++ toString bindings.length)
  let fault := layout.bind Code.LayoutOptions.fault?
  let code ← reporting Code.GenerationError.message
    (Code.generate document bindings (if fault.isSome then none else layout) project.language.name)
  if let some fault := fault then fail (.crash (.width fault))
  return ⟨project.output, code, models.all fun (_, entry) => entry.string?.isSome⟩

/-- How the types file and the scaffolds are written. -/
structure Writer where
  types : FileTree → (types path : String) → FileTree × Option Output.WriteError
  resolvers : FileTree → List Code.CodeFile → Output.WriteOptions → Output.Run

/-- In a tree without links. -/
def Writer.plain : Writer := ⟨Output.writeTypes, Output.writeResolvers⟩

/-- Writes the code, and says whether a file was skipped.  Of code that cannot be encoded only the
empty file gets onto the disk. -/
def write (w : Writer) (force : Bool) (p : Prepared) : Action Bool := do
  let ⟨output, code, encodable⟩ := p
  let (t, e) := w.types (← tree) (if encodable then code.types else "") output.typesPath
  modify fun s => { s with tree := t }
  written e
  if !encodable then fail (.crash .surrogate)
  print (.success ("Types and scalars resolvers generated at " ++ output.typesPath))
  let r := w.resolvers t code.resolvers ⟨output.resolversDir, output.typesPath, force⟩
  modify fun s => ⟨r.tree, s.printed ++ r.handled.map fileMessage⟩
  written r.error
  return r.didSkip

/-- All that a run does with its arguments. -/
def perform (w : Writer) (a : Arguments) : Action Unit := do
  if ← write w a.force (← prepare a) then
    print (.warning "\nPlease use the force flag (-f, --force) to overwrite the files.")

/-! ## Whole runs -/

/-- How a run ends: with a status, or with an error that is not reported. -/
inductive Ending
  | exit (status : Nat)
  | crash (c : Crash)
  deriving DecidableEq, Repr

/-- A run: the tree afterwards, what was printed, and how it ended. -/
structure Outcome where
  tree : FileTree
  printed : List Message
  ending : Ending
  deriving Repr

def Notice.text : Notice → String
  | .version => "main, version 0.1.0"
  | .help => "Usage: main [OPTIONS]

  Generate resolver types and scaffolds from a GraphQL schema.

Options:
  --version                   Show the version and exit.
  -c, --config FILE           Path to the graphqlgen configuration file.
                              [default: graphqlgen.yml]
  -f, --force                 Overwrite existing resolver scaffolds.
  --prettify / --no-prettify  Format generated code (default: on).
  -v, --verbose               Enable verbose output.
  --help                      Show this message and exit."

/-- One run of the command that writes like this. -/
def runWith (w : Writer) (t : FileTree) (args : List String) : Outcome :=
  match readArguments t args with
  | .error .nullCharacter => ⟨t, [], .crash .nullCharacter⟩
  | .error e => ⟨t, [.usage e.text], .exit 2⟩
  | .ok a =>
    match a.notice with
    | some n => ⟨t, [.plain n.text], .exit 0⟩
    | none =>
      match (perform w a).run.run ⟨t, []⟩ with
      | (.ok (), s) => ⟨s.tree, s.printed, .exit 0⟩
      | (.error (.reported message), s) => ⟨s.tree, s.printed ++ [.error message], .exit 1⟩
      | (.error (.crash c), s) => ⟨s.tree, s.printed, .crash c⟩

/-- One run of the command. -/
def run (t : FileTree) (args : List String) : Outcome := runWith .plain t args

/-- One run of the command where there are links.  It follows them to what it writes; what it reads
has to stand in the tree itself. -/
def runThrough (links : Links) (t : FileTree) (args : List String) : Outcome :=
  runWith ⟨links.writeTypes, links.writeResolvers⟩ t args

end ResolverKit.Command
