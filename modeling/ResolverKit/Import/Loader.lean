import ResolverKit.FileTree
import ResolverKit.Sdl.Parser
import ResolverKit.Sdl.Printer
import ResolverKit.Sdl.Source
import ResolverKit.Import.Closure
import ResolverKit.Import.Statement

/-!
# Loading a schema with its imports

A request asks a file for all its definitions or for those under some names with their
dependencies.  Loading starts with a request for the whole root file; every file that is opened
adds its selected definitions, unless they are there already, and asks for what its import
statements ask for, the first statement first and each with all that follows from it before the
next.  No request is answered twice, so that files may import each other.
-/

namespace ResolverKit.Import

open Sdl (Document Definition)

/-! ## Errors -/

/-- Why a schema cannot be loaded. -/
inductive LoadError
  | rootMissing (path : String)
  | importMissing (statement importer target : String)
  | unreadable (path detail : String)
  | notText (path : String)
  | malformed (path report : String)
  | namesMissing (names : List String) (path : String)
  | malformedWhole (path report : String)
  deriving DecidableEq, Repr

def LoadError.message : LoadError → String
  | .rootMissing path => "The schema file " ++ path ++ " does not exist"
  | .importMissing statement importer _ =>
    "The schema file " ++ statement ++ " imported from " ++ importer ++ " does not exist"
  | .unreadable path detail => "Error occurred while reading schema " ++ path ++ ": " ++ detail
  | .notText path => "The schema file " ++ path ++ " is not text"
  | .malformed path report => "Failed to parse schema " ++ path ++ ": " ++ report
  | .namesMissing names path => "Couldn't find " ++ ", ".intercalate names ++ " in " ++ path
  | .malformedWhole _ report => "Failed to parse schema: " ++ report

def LoadError.path : LoadError → String
  | .rootMissing path => path
  | .importMissing _ _ target => target
  | .unreadable path _ => path
  | .notText path => path
  | .malformed path _ => path
  | .namesMissing _ path => path
  | .malformedWhole path _ => path

/-! ## Files -/

/-- The text of a schema file, with every line end as a line feed. -/
def readText (t : FileTree) (path : String) : Except LoadError String :=
  match t.read path with
  | .ok (.text s) => .ok (String.ofList (Text.unifyLineEnds s.toList))
  | .ok (.binary _) => .error (.notText path)
  | .error e => .error (.unreadable path (AccessFailure.message ⟨e, path⟩))

/-- The document of a schema text; a text of comments alone holds no definitions. -/
def parseText (path text : String) : Except LoadError Document :=
  if isOnlyComments text then .ok []
  else
    match Sdl.parse text with
    | .ok d => .ok d
    | .error e => .error (.malformed path (Sdl.Source.report ⟨path, text⟩ e))

/-! ## Requests -/

/-- A request to the file at a normal path from the root. -/
structure Request where
  path : String
  selection : Selection
  deriving DecidableEq, Repr

/-- A request with the statement that makes it. -/
structure Link where
  request : Request
  statement : String
  importer : String
  deriving DecidableEq, Repr

/-- The request that an import statement of a file makes. -/
def Link.ofStatement (importer : String) (s : Statement) : Link :=
  ⟨⟨Path.normalize (Path.join (Path.dirname importer) s.path), s.selection⟩, s.path, importer⟩

/-- A definition with the file it comes from and its place there. -/
structure Loaded where
  path : String
  index : Nat
  definition : Definition
  deriving Repr

/-- The definitions of a document that a request selects, with their places. -/
def selected (d : Document) (r : Request) : List Loaded :=
  let all := d.zipIdx.map fun (definition, index) => (⟨r.path, index, definition⟩ : Loaded)
  match r.selection with
  | none => all
  | some names =>
    let wanted := closure d names
    all.filter fun l => l.definition.name?.any wanted.contains

def addNew (have_ : List Loaded) (new : List Loaded) : List Loaded :=
  new.foldl (fun acc l =>
    if acc.any fun l' => l'.path = l.path ∧ l'.index = l.index then acc else acc ++ [l]) have_

/-- The names of a request that its file does not define. -/
def missingNames (r : Request) (found : List Loaded) : List String :=
  (r.selection.getD []).filter fun n => !found.any (·.definition.name? = some n)

/-- Answers a request: the definitions with those it adds, and the links of its file. -/
def answer (t : FileTree) (r : Request) (loaded : List Loaded) :
    Except LoadError (List Loaded × List Link) := do
  let text ← readText t r.path
  let d ← parseText r.path text
  let found := selected d r
  match missingNames r found with
  | [] => return (addNew loaded found, (statements text).map (Link.ofStatement r.path))
  | names => throw (.namesMissing names r.path)

/-! ## Following links -/

/-- The paths of all files from the root, with one slash or two at the front. -/
def filePaths (t : FileTree) : List String :=
  t.root.descendants.flatMap fun (ss, n) =>
    if n.isDir then [] else ["/" ++ Path.ofSegments ss, "//" ++ Path.ofSegments ss]

/-- All requests that the files of a tree can make to its files. -/
def possibleRequests (t : FileTree) : List Request :=
  let paths := filePaths t
  let selections := paths.flatMap fun p =>
    match readText t p with
    | .ok text => (statements text).map (·.selection)
    | .error _ => []
  paths.flatMap fun p => selections.eraseDups.map fun s => ⟨p, s⟩

theorem length_filter_cons_lt {all opened : List Request} {r : Request} (ha : r ∈ all)
    (ho : r ∉ opened) :
    (all.filter (!(r :: opened).contains ·)).length < (all.filter (!opened.contains ·)).length := by
  have h : all.filter (!(r :: opened).contains ·) =
      (all.filter (!opened.contains ·)).filter (· ≠ r) := by
    simp only [List.filter_filter]
    congr 1
    funext x
    by_cases hx : x = r <;> simp [hx]
  rw [h]
  refine List.length_filter_lt_length_iff_exists.2 ⟨r, ?_, by simp⟩
  simp [ha, ho]

/-- Follows links in their order, each with all that it leads to before the next.  `all` holds
the requests that may come up and `opened` those that were answered. -/
def follow (t : FileTree) (all opened : List Request) (loaded : List Loaded) (links : List Link) :
    Except LoadError (List Loaded) :=
  match links with
  | [] => .ok loaded
  | link :: rest =>
    if !t.isFile link.request.path then
      .error (.importMissing link.statement link.importer link.request.path)
    else if _h : link.request ∈ all ∧ link.request ∉ opened then
      match answer t link.request loaded with
      | .error e => .error e
      | .ok (loaded', links') => follow t all (link.request :: opened) loaded' (links' ++ rest)
    else follow t all opened loaded rest
termination_by ((all.filter (!opened.contains ·)).length, links.length)
decreasing_by
  · exact Prod.Lex.left _ _ (length_filter_cons_lt _h.1 _h.2)
  · exact Prod.Lex.right _ (by simp)

/-- The definitions of a schema file and of all it imports. -/
def load (t : FileTree) (path : String) : Except LoadError Document := do
  let root : Request := ⟨t.absolute path, none⟩
  if !t.isFile root.path then throw (.rootMissing path)
  let (loaded, links) ← answer t root []
  let loaded ← follow t (possibleRequests t) [root] loaded links
  return loaded.map (·.definition)

def loadText (t : FileTree) (path : String) : Except LoadError String :=
  (load t path).map Sdl.Document.print

/-- The document of a schema file with all it imports, read again from its text. -/
def loadDocument (t : FileTree) (path : String) : Except LoadError Document := do
  let text ← loadText t path
  match Sdl.parse text with
  | .ok d => return d
  | .error e => throw (.malformedWhole path (Sdl.Source.report ⟨"GraphQL request", text⟩ e))

end ResolverKit.Import
