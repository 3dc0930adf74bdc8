import ResolverKit.Keyed
import ResolverKit.Model.Entry
import ResolverKit.Model.Specifier

/-!
# Model bindings

Which model stands behind which schema type, and how the generated file refers to it.
-/

namespace ResolverKit.Model

/-- A model: its file from the root, the specifier of the file, and the name of its type. -/
structure Binding where
  file : String
  specifier : String
  name : String
  deriving DecidableEq, Repr

/-- The bindings of schema types in the order of the configuration. -/
abbrev Bindings := List (String × Binding)

/-- The path of a file as seen from the directory `base`, or from the working directory if no
directory is given. -/
def fileFrom (cwd : String) (base : Option String) (p : String) : String :=
  let base := base.getD ""
  Path.normalize (Path.join (if base = "" then cwd else base) p)

def bind (cwd : String) (base : Option String) (output type : String) (entry : EntryValue) :
    Except ModelError Binding := do
  let (path, name) ← readEntry type entry
  let file := fileFrom cwd base path
  return ⟨file, (specifier? cwd file (fileFrom cwd base output)).getD "", name⟩

/-- The bindings of these entries for the generated file `output`. -/
def bindAll (cwd : String) (base : Option String) (output : String) :
    List (String × EntryValue) → Except ModelError Bindings
  | [] => .ok []
  | (type, entry) :: r => do
    let b ← bind cwd base output type entry
    return (type, b) :: (← bindAll cwd base output r)

/-- Every bound type has to be among these. -/
def checkTypes (bindings : Bindings) (types : List String) : Except ModelError Unit :=
  match bindings.find? fun (type, _) => !types.contains type with
  | some (type, _) => .error (.unknownType type)
  | none => .ok ()

end ResolverKit.Model
