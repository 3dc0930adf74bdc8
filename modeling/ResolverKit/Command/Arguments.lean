import ResolverKit.Command.Similar
import ResolverKit.FileTree
import ResolverKit.Settings.Project

/-!
# Arguments of the command line

What the arguments ask for, or what is wrong with them.  Options may be written in full, in one
letter, and as several letters behind one dash; the last of several values counts.
-/

namespace ResolverKit.Command

/-! ## Options -/

/-- What an option does. -/
inductive Switch
  | config | force | verbose | version | help
  | prettify (on : Bool)
  deriving DecidableEq, Repr

/-- The options in full. -/
def longOptions : List (String × Switch) :=
  [("--config", .config), ("--force", .force), ("--prettify", .prettify true),
    ("--no-prettify", .prettify false), ("--verbose", .verbose), ("--version", .version),
    ("--help", .help)]

/-- The options in one letter. -/
def shortOptions : List (Char × Switch) := [('c', .config), ('f', .force), ('v', .verbose)]

/-- A text to show instead of a run. -/
inductive Notice
  | version | help
  deriving DecidableEq, Repr

/-- What has been asked for. -/
structure Arguments where
  configPath : String
  force : Bool
  prettify : Bool
  verbose : Bool
  notice : Option Notice
  extra : List String
  deriving DecidableEq, Repr

def Arguments.none : Arguments := ⟨Settings.projectFile, false, true, false, .none, []⟩

def Arguments.set (a : Arguments) : Switch → Arguments
  | .force => { a with force := true }
  | .verbose => { a with verbose := true }
  | .prettify on => { a with prettify := on }
  | .version => { a with notice := a.notice.or (some .version) }
  | .help => { a with notice := a.notice.or (some .help) }
  | .config => a

/-! ## Errors -/

inductive UsageError
  | missingValue (option : String)
  | needlessValue (option : String)
  | unknown (option : String) (similar : List String)
  | directory (path : String)
  | nullCharacter
  | extra (arguments : List String)
  deriving DecidableEq, Repr

def UsageError.message : UsageError → String
  | .missingValue option => "Option " ++ Text.quoted option ++ " requires an argument."
  | .needlessValue option => "Option " ++ Text.quoted option ++ " does not take a value."
  | .unknown option similar =>
    let meant := (similar.mergeSort FileTree.inOrder).map Text.quoted
    "No such option " ++ Text.quoted option ++ "." ++
      match meant with
      | [] => ""
      | [s] => " Did you mean " ++ s ++ "?"
      | ss => " (Did you mean one of: " ++ ", ".intercalate ss ++ "?)"
  | .directory path =>
    "Invalid value for '--config' / '-c': File " ++ Text.quoted path ++ " is a directory."
  | .nullCharacter => AccessError.text .nullCharacter
  | .extra [a] => "Got unexpected extra argument (" ++ a ++ ")"
  | .extra as => "Got unexpected extra arguments (" ++ " ".intercalate as ++ ")"

/-- The line that says how the command is used, with a hint. -/
def usageText : String := "Usage: main [OPTIONS]\nTry 'main --help' for help.\n\n"

/-- An error as it is shown; the usage is told unless only a value is wrong. -/
def UsageError.text (e : UsageError) : String :=
  let error := "Error: " ++ e.message
  match e with
  | .missingValue _ => error
  | .needlessValue _ => error
  | _ => usageText ++ error

/-! ## Reading -/

/-- The letters behind one dash, and whether the next argument is the value of the last one. -/
def readLetters (a : Arguments) : List Char → Except UsageError (Arguments × Option Char)
  | [] => .ok (a, none)
  | c :: r =>
    match Keyed.get? c shortOptions with
    | some .config =>
      if r.isEmpty then .ok (a, some c)
      else .ok ({ a with configPath := String.ofList r }, none)
    | some s => readLetters (a.set s) r
    | none => .error (.unknown (String.ofList ['-', c]) [])

/-- The name of an option in full, and the value behind an equals sign. -/
def splitValue (arg : String) : String × Option String :=
  let name := arg.toList.takeWhile (· != '=')
  match arg.toList.drop name.length with
  | _ :: value => (String.ofList name, some (String.ofList value))
  | [] => (arg, none)

/-- What an argument is. -/
inductive Shape
  | long (switch : Switch) (name : String) (value : Option String)
  | letters (cs : List Char)
  | unknown (name : String)
  | ending
  | plain

def shapeOf (arg : String) : Shape :=
  let (name, value) := splitValue arg
  match arg.toList with
  | ['-', '-'] => .ending
  | '-' :: c :: r =>
    match Keyed.get? name longOptions with
    | some s => .long s name value
    | none => if c = '-' then .unknown name else .letters (c :: r)
  | _ => .plain

def readFrom (a : Arguments) : List String → Except UsageError Arguments
  | [] => .ok a
  | arg :: rest =>
    match shapeOf arg with
    | .ending => .ok { a with extra := a.extra ++ rest }
    | .plain => readFrom { a with extra := a.extra ++ [arg] } rest
    | .unknown name => .error (.unknown name (similar name (longOptions.map (·.1))))
    | .long .config _ (some v) => readFrom { a with configPath := v } rest
    | .long .config name none =>
      match rest with
      | v :: rest' => readFrom { a with configPath := v } rest'
      | [] => .error (.missingValue name)
    | .long s name value =>
      if value.isSome then .error (.needlessValue name) else readFrom (a.set s) rest
    | .letters cs =>
      match readLetters a cs with
      | .error e => .error e
      | .ok (a', none) => readFrom a' rest
      | .ok (a', some c) =>
        match rest with
        | v :: rest' => readFrom { a' with configPath := v } rest'
        | [] => .error (.missingValue (String.ofList ['-', c]))

/-- What the arguments ask for.  The settings may not be a directory, and nothing but options may
be given; neither matters if only a notice is asked for. -/
def readArguments (t : FileTree) (args : List String) : Except UsageError Arguments := do
  let a ← readFrom .none args
  if a.notice.isSome then return a
  if FileTree.unusable? a.configPath = some .nullCharacter then throw .nullCharacter
  if t.isDir a.configPath then throw (.directory a.configPath)
  if !a.extra.isEmpty then throw (.extra a.extra)
  return a

end ResolverKit.Command
