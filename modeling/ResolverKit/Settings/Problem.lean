import ResolverKit.ConfigText.Construction
import ResolverKit.FileTree

/-!
# Settings files

How a file with settings is read, and the problems that are found in its value.  A problem names
the place in the value, from the outermost key on.
-/

namespace ResolverKit.Settings

open ConfigText (Atom BadScalar Value)
open Text (CodeText)

/-! ## Problems -/

/-- A problem at a place of a value. -/
structure Problem where
  place : List String
  message : String
  deriving DecidableEq, Repr

def Problem.text (p : Problem) : String := ".".intercalate p.place ++ ": " ++ p.message

def Problem.under (key : String) (p : Problem) : Problem := ⟨key :: p.place, p.message⟩

/-- Something that is read from a value, or the problems that prevent it. -/
abbrev Checked (α : Type) := Except (List Problem) α

/-- A single problem at the value itself. -/
def problem {α : Type} (message : String) : Checked α := .error [⟨[], message⟩]

/-- What is read from the value under a key. -/
def Checked.under {α : Type} (key : String) (c : Checked α) : Checked α :=
  c.mapError fun ps => ps.map (Problem.under key)

def Checked.problems {α : Type} (c : Checked α) : List Problem :=
  match c with
  | .ok _ => []
  | .error ps => ps

/-! ## Entries -/

/-- The value under the first of these keys that a mapping has, with the key. -/
def lookup (keys : List String) (entries : List (Atom × Value)) : Option (String × Value) :=
  keys.findSome? fun key =>
    (entries.find? fun (k, _) => k.sameKey (.text (.ofString key))).map fun (_, v) => (key, v)

/-- Reads a field that has to be there under one of these keys. -/
def required {α : Type} (keys : List String) (read : Value → Checked α)
    (entries : List (Atom × Value)) : Checked α :=
  match lookup keys entries with
  | some (key, v) => Checked.under key (read v)
  | none => Checked.under (keys.headD "") (problem "Field required")

/-- Reads a field that may be left out. -/
def optional {α : Type} (keys : List String) (read : Value → Checked α) (default : α)
    (entries : List (Atom × Value)) : Checked α :=
  match lookup keys entries with
  | some (key, v) => Checked.under key (read v)
  | none => .ok default

/-- The problems of entries that belong to no field.  `fields` lists for every field the keys that
it may have; the first that is there is the one that counts. -/
def extraProblems (fields : List (List String)) (entries : List (Atom × Value)) :
    List Problem :=
  let used := fields.filterMap fun keys => (lookup keys entries).map (·.1)
  entries.flatMap fun (k, _) =>
    match k with
    | .text key =>
      if used.any fun u => key == .ofString u then []
      else [⟨[k.keyText], "Extra inputs are not permitted"⟩]
    | k => [⟨[k.keyText], "Keys should be strings"⟩]

/-- What is said of a text or bytes that are no text of characters. -/
def unreadable : String :=
  "Input should be a valid string, unable to parse raw data as a unicode string"

/-- Entries among whose keys is a text with surrogates; nothing else is said of them then. -/
def hasUnreadableKey (entries : List (Atom × Value)) : Bool :=
  entries.any fun (k, _) =>
    match k with
    | .text key => key.string?.isNone
    | _ => false

/-! ## Files -/

/-- Why settings cannot be used. -/
inductive SettingsError
  | missing (path : String)
  | unreadable (path detail : String)
  | notText (path : String)
  | badScalar (path : String) (bad : BadScalar)
  | invalid (path message : String)
  deriving DecidableEq, Repr

def SettingsError.message : SettingsError → String
  | .missing path => "No " ++ Path.basename path ++ " found at " ++ path
  | .unreadable path detail => "Could not read " ++ path ++ ": " ++ detail
  | .notText path => "The file " ++ path ++ " is not text"
  | .badScalar _ bad => bad.message
  | .invalid _ message => message

def SettingsError.path : SettingsError → String
  | .missing path => path
  | .unreadable path _ => path
  | .notText path => path
  | .badScalar path _ => path
  | .invalid path _ => path

/-- How deep the values of settings are nested: a file, a section, a table and its entries. -/
def settingsDepth : Nat := 4

/-- What a message says instead of the place at which a text is not well-formed. -/
def diagnostic : String := "<yaml error>"

/-- The value of a file; `malformed` is the message for a text that is not well-formed. -/
def readFile (t : FileTree) (path malformed : String) : Except SettingsError Value :=
  match t.read path with
  | .error e => .error (.unreadable path (AccessFailure.message ⟨e, path⟩))
  | .ok (.binary _) => .error (.notText path)
  | .ok (.text s) =>
    match ConfigText.read settingsDepth (String.ofList (Text.unifyLineEnds s.toList)) with
    | .ok v => .ok v
    | .error .malformed => .error (.invalid path malformed)
    | .error (.scalar bad) => .error (.badScalar path bad)

end ResolverKit.Settings
