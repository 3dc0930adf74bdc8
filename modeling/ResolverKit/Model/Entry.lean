import ResolverKit.Text.Blank
import ResolverKit.Text.Split

/-!
# Model entries

A model entry says which type of which file stands behind a schema type: `path/to/file:TypeName`.
-/

namespace ResolverKit.Model

/-- Why the models of a schema cannot be used. -/
inductive ModelError
  | malformedEntry (type entry : String)
  | unknownType (type : String)
  deriving DecidableEq, Repr

def ModelError.message : ModelError → String
  | .malformedEntry type entry =>
    "Invalid model definition for \"" ++ type ++ "\": \"" ++ entry ++
      "\". Expected the form \"path/to/file:TypeName\""
  | .unknownType type =>
    "Model defined for \"" ++ type ++ "\", but the schema has no such type"

def ModelError.type : ModelError → String
  | .malformedEntry type _ => type
  | .unknownType type => type

/-- What stands at an entry: a text, or another value with the text that shows it. -/
inductive EntryValue
  | text (s : String)
  | other (shown : String)
  deriving DecidableEq, Repr

def EntryValue.shown : EntryValue → String
  | .text s => s
  | .other s => s

/-- The file and the type that an entry names; both have to be more than blanks. -/
def readEntry (type : String) (entry : EntryValue) : Except ModelError (String × String) :=
  match entry with
  | .other shown => .error (.malformedEntry type shown)
  | .text s =>
    match (Text.pieces ':' s.toList).map Text.trim with
    | [file, model] =>
      if file.isEmpty || model.isEmpty then .error (.malformedEntry type s)
      else .ok (String.ofList file, String.ofList model)
    | _ => .error (.malformedEntry type s)

end ResolverKit.Model
