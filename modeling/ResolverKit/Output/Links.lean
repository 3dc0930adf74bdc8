import ResolverKit.Links
import ResolverKit.Output.Writer

/-!
# Writing generated files through links

Files are written as in a tree without links, only that every path is followed through the links:
what is looked for, what is made and what is written.  The directories that were missing are still
told by the text of their paths, which may lead elsewhere.
-/

namespace ResolverKit.Links

open Code (CodeFile)
open Output (FileState Run WriteError WriteOptions)

/-! ## Files and directories -/

def writeFile (links : Links) (t : FileTree) (path text : String) : FileTree × Option WriteError :=
  match links.write t path text with
  | .ok t' => (t', none)
  | .error cause => (t, some ⟨path, cause, path⟩)

/-- The path from the root and the directories above it up to the first that exists. -/
def missingDirs (links : Links) (t : FileTree) (p : List Char) : List String :=
  if p = [] || links.exists? t (String.ofList p) then []
  else if _h : (Path.splitLast p).2 = [] then [String.ofList p]
  else String.ofList p :: missingDirs links t (Path.splitLast p).1
termination_by p.length
decreasing_by exact Path.length_splitLast_lt _h

/-- Makes sure that a directory exists: the tree, the directories that were missing, and the
error. -/
def provideDirs (links : Links) (t : FileTree) (path : String) :
    FileTree × Except WriteError (List String) :=
  let missing := links.missingDirs t (t.absolute path).toList
  match links.makeDirs t path.toList with
  | (t', none) => (t', .ok missing)
  | (t', some failure) => (t', .error ⟨path, failure⟩)

def writeTypes (links : Links) (t : FileTree) (types path : String) :
    FileTree × Option WriteError :=
  let parent := Path.dirname path
  if parent = "" then links.writeFile t path types
  else
    match links.provideDirs t parent with
    | (t', .ok _) => links.writeFile t' path types
    | (t', .error e) => (t', some e)

/-! ## Scaffolds -/

/-- Something stands in the way of a file that is not forced. -/
def isTaken (links : Links) (o : WriteOptions) (r : Run) (path : String) : Bool :=
  let parent := Output.parentDir r.tree path
  links.exists? r.tree path ||
    (parent != r.tree.absolute o.dir && !r.created.contains parent && links.exists? r.tree parent)

def writeScaffold (links : Links) (o : WriteOptions) (r : Run) (f : CodeFile) : Run :=
  let path := o.pathOf f
  match links.provideDirs r.tree (Output.parentDir r.tree path) with
  | (t, .error e) => { r with tree := t, error := some e }
  | (t, .ok missing) =>
    match links.writeFile t path (Output.fillPlaceholder f.code o.typesPath) with
    | (t', none) => ⟨t', missing ++ r.created, r.handled ++ [(.written, path)], none⟩
    | (t', some e) => { r with tree := t', created := missing ++ r.created, error := some e }

/-- Handles one scaffold; after an error nothing happens any more. -/
def handle (links : Links) (o : WriteOptions) (r : Run) (f : CodeFile) : Run :=
  if r.error.isSome then r
  else if !(o.force || f.force) && links.isTaken o r (o.pathOf f) then
    { r with handled := r.handled ++ [(.skipped, o.pathOf f)] }
  else links.writeScaffold o r f

/-- Writes scaffolds below the output directory. -/
def writeResolvers (links : Links) (t : FileTree) (files : List CodeFile) (o : WriteOptions) :
    Run :=
  match links.provideDirs t o.dir with
  | (t', .error e) => ⟨t', [], [], some e⟩
  | (t', .ok missing) => files.foldl (links.handle o) ⟨t', missing, [], none⟩

end ResolverKit.Links
