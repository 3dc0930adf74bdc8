import ResolverKit.Code.Scaffold
import ResolverKit.FileTree

/-!
# Writing generated files

The types file is written every time.  A scaffold is completed by hand, so it is written only
where nothing stands yet: it is skipped if its file exists, or if its directory existed before
this call and is not the output directory itself.  A forced file is written in any case.

Every operation gives the tree afterwards, also when it fails half-way.
-/

namespace ResolverKit.Output

open Code (CodeFile)

/-! ## Errors -/

/-- A file or directory that cannot be written: the path as it was asked for, and the cause. -/
structure WriteError where
  path : String
  failure : AccessFailure
  deriving DecidableEq, Repr

def WriteError.message (e : WriteError) : String :=
  "Failed to write the file at " ++ e.path ++ ", error: " ++ e.failure.message

/-! ## Files and directories -/

def writeFile (t : FileTree) (path text : String) : FileTree × Option WriteError :=
  match t.write path text with
  | .ok t' => (t', none)
  | .error cause => (t, some ⟨path, cause, path⟩)

/-- The path from the root and the directories above it up to the first that exists. -/
def missingDirs (t : FileTree) (p : List Char) : List String :=
  if p = [] || t.exists? (String.ofList p) then []
  else if _h : (Path.splitLast p).2 = [] then [String.ofList p]
  else String.ofList p :: missingDirs t (Path.splitLast p).1
termination_by p.length
decreasing_by exact Path.length_splitLast_lt _h

/-- Makes sure that a directory exists: the tree, the directories that were missing, and the
error. -/
def makeDirs (t : FileTree) (path : String) : FileTree × Except WriteError (List String) :=
  let missing := missingDirs t (t.absolute path).toList
  match t.makeDirs path.toList with
  | (t', none) => (t', .ok missing)
  | (t', some failure) => (t', .error ⟨path, failure⟩)

/-- Writes the types file and the directories above it. -/
def writeTypes (t : FileTree) (types path : String) : FileTree × Option WriteError :=
  let parent := Path.dirname path
  if parent = "" then writeFile t path types
  else
    match makeDirs t parent with
    | (t', .ok _) => writeFile t' path types
    | (t', .error e) => (t', some e)

/-! ## Scaffolds -/

/-- The text with the first occurrence of `old` replaced. -/
def replaceFirst (old new : List Char) : List Char → List Char
  | [] => []
  | c :: r =>
    if old.isPrefixOf (c :: r) then new ++ (c :: r).drop old.length
    else c :: replaceFirst old new r

/-- The code of a scaffold that imports from `typesPath`. -/
def fillPlaceholder (code typesPath : String) : String :=
  String.ofList (replaceFirst Code.placeholder.toList typesPath.toList code.toList)

/-- What became of a scaffold. -/
inductive FileState
  | written | skipped
  deriving DecidableEq, Repr

/-- A run over scaffolds: the tree, the directories that the run has created, what became of the
files so far, and the error that ended it. -/
structure Run where
  tree : FileTree
  created : List String
  handled : List (FileState × String)
  error : Option WriteError
  deriving Repr

def Run.paths (r : Run) (s : FileState) : List String := (r.handled.filter (·.1 = s)).map (·.2)

/-- Some file was skipped. -/
def Run.didSkip (r : Run) : Bool := !(r.paths .skipped).isEmpty

/-- How scaffolds are written: below which directory, with which import of the types file, and
whether they replace what is there. -/
structure WriteOptions where
  dir : String
  typesPath : String
  force : Bool
  deriving DecidableEq, Repr

def WriteOptions.pathOf (o : WriteOptions) (f : CodeFile) : String := Path.join o.dir f.path

def parentDir (t : FileTree) (path : String) : String := t.absolute (Path.dirname path)

/-- Something stands in the way of a file that is not forced. -/
def isTaken (o : WriteOptions) (r : Run) (path : String) : Bool :=
  let parent := parentDir r.tree path
  r.tree.exists? path ||
    (parent != r.tree.absolute o.dir && !r.created.contains parent && r.tree.exists? parent)

/-- Writes a scaffold with the directories above it. -/
def Run.write (o : WriteOptions) (r : Run) (f : CodeFile) : Run :=
  let path := o.pathOf f
  match makeDirs r.tree (parentDir r.tree path) with
  | (t, .error e) => { r with tree := t, error := some e }
  | (t, .ok missing) =>
    match writeFile t path (fillPlaceholder f.code o.typesPath) with
    | (t', none) => ⟨t', missing ++ r.created, r.handled ++ [(.written, path)], none⟩
    | (t', some e) => { r with tree := t', created := missing ++ r.created, error := some e }

/-- Handles one scaffold; after an error nothing happens any more. -/
def Run.handle (o : WriteOptions) (r : Run) (f : CodeFile) : Run :=
  if r.error.isSome then r
  else if !(o.force || f.force) && isTaken o r (o.pathOf f) then
    { r with handled := r.handled ++ [(.skipped, o.pathOf f)] }
  else r.write o f

/-- Writes scaffolds below the output directory. -/
def writeResolvers (t : FileTree) (files : List CodeFile) (o : WriteOptions) : Run :=
  match makeDirs t o.dir with
  | (t', .error e) => ⟨t', [], [], some e⟩
  | (t', .ok missing) => files.foldl (Run.handle o) ⟨t', missing, [], none⟩

end ResolverKit.Output
