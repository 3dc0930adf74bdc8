import ResolverKit.Keyed
import ResolverKit.Path
import ResolverKit.Text.Lines
import ResolverKit.Text.Quoted

/-!
# File trees

A file tree is a value: nested directories with files in them, and a working directory.  A path
is followed segment by segment, so that a parent segment needs the directory before it to exist.
Every operation that changes the tree gives the tree afterwards, also when it fails half-way.

There are no links here, so that each file has one place and each place one way to it without dots:
neither symbolic links, which `Links` adds, nor second names of one file.  Nor are there
permissions: what is there can be read and written.

Main statement: after `Node.put` the segments that were written lead to the new node, unless a
file is on the way.
-/

namespace ResolverKit

/-- What a file holds: text, or bytes that are no text. -/
inductive Content
  | text (s : String)
  | binary (bytes : List UInt8)
  deriving DecidableEq, Repr

/-- A file, or a directory with its entries. -/
inductive Node
  | file (content : Content)
  | dir (entries : List (String × Node))
  deriving Repr

namespace Node

/-! ## Nodes -/

/-- The node that the segments lead to. -/
def get? : Node → List String → Option Node
  | n, [] => some n
  | .dir es, s :: r => (Keyed.get? s es).bind (get? · r)
  | .file _, _ :: _ => none

/-- Puts a node where the segments lead, with directories on the way as needed.  A file on the way
stays as it is. -/
def put : Node → List String → Node → Node
  | _, [], new => new
  | .dir es, s :: r, new => .dir (Keyed.put s (put ((Keyed.get? s es).getD (.dir [])) r new) es)
  | .file c, _ :: _, _ => .file c

/-- Takes away the node that the segments lead to. -/
def remove : Node → List String → Node
  | n, [] => n
  | .dir es, [s] => .dir (es.filter (·.1 ≠ s))
  | .dir es, s :: r =>
    match Keyed.get? s es with
    | some n => .dir (Keyed.put s (remove n r) es)
    | none => .dir es
  | .file c, _ :: _ => .file c

def isDir : Node → Bool
  | .dir _ => true
  | .file _ => false

mutual

/-- All nodes below a node with the segments that lead to them. -/
def descendants : Node → List (List String × Node)
  | .file _ => []
  | .dir es => entryDescendants es

def entryDescendants : List (String × Node) → List (List String × Node)
  | [] => []
  | (s, n) :: r => ([s], n) :: n.descendants.map (fun (p, m) => (s :: p, m)) ++ entryDescendants r

end

/-! ## Lemmas -/

@[simp] theorem get?_nil (n : Node) : n.get? [] = some n := by cases n <;> rfl

theorem get?_put_self_dir (new : Node) (p : List String) (es : List (String × Node))
    (h : ∀ q, q <+: p → q ≠ p → ∀ c, (Node.dir es).get? q ≠ some (.file c)) :
    ((Node.dir es).put p new).get? p = some new := by
  induction p generalizing es with
  | nil => simp [put]
  | cons s r ih =>
    simp only [put, get?, Keyed.get?_put_self, Option.bind_some]
    cases hs : Keyed.get? s es with
    | none =>
      refine ih [] fun q _ _ c => ?_
      cases q <;> simp [get?, Keyed.get?]
    | some n =>
      cases n with
      | file c =>
        cases r with
        | nil => simp [put]
        | cons s' r' =>
          exact absurd (by simp [get?, hs])
            (h [s] (by simp) (by simp) c)
      | dir es' =>
        refine ih es' fun q hq hne c => ?_
        have := h (s :: q) (by simpa using hq) (by simpa using hne) c
        simpa [get?, hs] using this

end Node

/-! ## Trees -/

/-- A root directory, and the segments of the working directory. -/
structure FileTree where
  root : Node
  cwd : List String
  deriving Repr

/-- Why a path cannot be used. -/
inductive AccessError
  | notFound | notDirectory | isDirectory | exists | nameTooLong | tooManyLinks | nullCharacter
  deriving DecidableEq, Repr

def AccessError.text : AccessError → String
  | .notFound => "[Errno 2] No such file or directory"
  | .notDirectory => "[Errno 20] Not a directory"
  | .isDirectory => "[Errno 21] Is a directory"
  | .exists => "[Errno 17] File exists"
  | .nameTooLong => "[Errno 36] File name too long"
  | .tooManyLinks => "[Errno 40] Too many levels of symbolic links"
  | .nullCharacter => "embedded null byte"

/-- A failed access: the cause and the path that was given. -/
structure AccessFailure where
  cause : AccessError
  path : String
  deriving DecidableEq, Repr

def AccessFailure.message (f : AccessFailure) : String :=
  if f.cause = .nullCharacter then f.cause.text else f.cause.text ++ ": " ++ Text.quoted f.path

namespace FileTree

/-! ## Following paths -/

/-- How many bytes a name and a path may have. -/
def maxName : Nat := 255
def maxPath : Nat := 4095

def cwdPath (t : FileTree) : String := "/" ++ Path.ofSegments t.cwd

def absolute (t : FileTree) (p : String) : String := Path.absolute t.cwdPath p

/-- Follows segments from the directory `at`; the answer has neither empty nor dotted segments. -/
def walk (root : Node) (here : List String) : List String → Except AccessError (List String)
  | [] => .ok here
  | s :: r =>
    match root.get? here with
    | none => .error .notFound
    | some (.file _) => .error .notDirectory
    | some (.dir es) =>
      if s = "" || s = "." then walk root here r
      else if s = ".." then walk root here.dropLast r
      else if maxName < s.utf8ByteSize then .error .nameTooLong
      else if (Keyed.get? s es).isSome then walk root (here ++ [s]) r
      else .error .notFound

/-- A path that no access can use. -/
def unusable? (p : String) : Option AccessError :=
  if p.toList.contains '\x00' then some .nullCharacter
  else if p = "" then some .notFound
  else if maxPath < p.utf8ByteSize then some .nameTooLong
  else none

/-- Where a path starts. -/
def startOf (t : FileTree) (p : String) : List String := if Path.isAbsolute p then [] else t.cwd

/-- Follows a path to a node that exists. -/
def resolve (t : FileTree) (p : String) : Except AccessError (List String) :=
  match unusable? p with
  | some e => .error e
  | none => walk t.root (t.startOf p) (Path.segments p)

def node? (t : FileTree) (p : String) : Option Node :=
  match t.resolve p with
  | .ok at_ => t.root.get? at_
  | .error _ => none

/-- The path leads to a node. -/
def exists? (t : FileTree) (p : String) : Bool := (t.node? p).isSome

def isFile (t : FileTree) (p : String) : Bool :=
  match t.node? p with
  | some (.file _) => true
  | _ => false

/-- The path leads to a directory. -/
def isDir (t : FileTree) (p : String) : Bool :=
  match t.node? p with
  | some (.dir _) => true
  | _ => false

/-! ## Reading -/

def read (t : FileTree) (p : String) : Except AccessError Content := do
  match t.root.get? (← t.resolve p) with
  | some (.file c) => return c
  | some (.dir _) => throw .isDirectory
  | none => throw .notFound

/-! ## Writing -/

/-- The place at which a path would create a node: the directory, the name, and whether slashes
follow the name.  A path that ends in no name leads to the directory alone. -/
def target (t : FileTree) (p : String) :
    Except AccessError (List String × Option String × Bool) := do
  match unusable? p with
  | some e => throw e
  | none =>
    let ss := (Path.segments p).reverse
    let core := ss.dropWhile (· = "")
    match core with
    | [] => return ([], none, false)
    | last :: before =>
      let here ← walk t.root (t.startOf p) before.reverse
      match t.root.get? here with
      | some (.dir _) =>
        if last = "." then return (here, none, false)
        else if last = ".." then return (here.dropLast, none, false)
        else return (here, some last, core.length < ss.length)
      | some (.file _) => throw .notDirectory
      | none => throw .notFound

/-- The tree with the text in the file `p`, which is created or replaced. -/
def write (t : FileTree) (p : String) (text : String) : Except AccessError FileTree := do
  match ← t.target p with
  | (_, none, _) => throw .isDirectory
  | (here, some name, trailing) =>
    if trailing then throw .isDirectory
    else if maxName < name.utf8ByteSize then throw .nameTooLong
    else
      match t.root.get? (here ++ [name]) with
      | some (.dir _) => throw .isDirectory
      | _ => return { t with root := t.root.put (here ++ [name]) (.file (.text text)) }

/-- The tree with the new directory `p`, whose parent exists. -/
def createDir (t : FileTree) (p : String) : Except AccessError FileTree := do
  match ← t.target p with
  | (_, none, _) => throw .exists
  | (here, some name, _) =>
    if maxName < name.utf8ByteSize then throw .nameTooLong
    else
      match t.root.get? (here ++ [name]) with
      | some _ => throw .exists
      | none => return { t with root := t.root.put (here ++ [name]) (.dir []) }

/-- Creates the directory `p` unless there is one: the tree, and the failure if there was one. -/
def ensureDir (t : FileTree) (p : String) : FileTree × Option AccessFailure :=
  match t.createDir p with
  | .ok t' => (t', none)
  | .error e =>
    if e ≠ .nullCharacter && t.isDir p then (t, none) else (t, some ⟨e, p⟩)

/-- Drops a slash at the end before a path is cut at its last slash. -/
def cutLast (cs : List Char) : List Char × List Char :=
  let cut := Path.splitLast cs
  if cut.2 = [] then Path.splitLast cut.1 else cut

theorem length_cutLast_lt {cs : List Char} (h : (cutLast cs).2 ≠ []) :
    (cutLast cs).1.length < cs.length := by
  unfold cutLast at *
  simp only at *
  split at h
  · rename_i h2
    have := Path.length_splitLast_lt h
    have := Path.length_splitLast_le cs
    simp only [h2, if_true]
    omega
  · rename_i h2
    simp only [h2, if_false]
    exact Path.length_splitLast_lt h

/-- Creates the directory `p` and the directories on the way to it: the tree, and the first
failure.  A failure may name a directory on the way. -/
def makeDirs (t : FileTree) (p : List Char) : FileTree × Option AccessFailure :=
  if _h : (cutLast p).2 = [] then t.ensureDir (String.ofList p)
  else
    let head := (cutLast p).1
    if head = [] || t.exists? (String.ofList head) then t.ensureDir (String.ofList p)
    else
      match makeDirs t head with
      | (t', some failure) =>
        if failure.cause = .exists then
          if (cutLast p).2 = ['.'] then (t', none) else t'.ensureDir (String.ofList p)
        else (t', some failure)
      | (t', none) =>
        if (cutLast p).2 = ['.'] then (t', none) else t'.ensureDir (String.ofList p)
termination_by p.length
decreasing_by exact length_cutLast_lt _h

/-! ## Whole trees -/

/-- Puts a file or a directory at a path, with the directories on the way. -/
def place (t : FileTree) (p : String) (n : Node) : FileTree :=
  { t with root := t.root.put ((Path.segments (t.absolute p)).filter (· ≠ "")) n }

/-- Takes away the file or directory at a path. -/
def remove (t : FileTree) (p : String) : FileTree :=
  { t with root := t.root.remove ((Path.segments (t.absolute p)).filter (· ≠ "")) }

/-- The empty tree whose working directory has these segments. -/
def empty (cwd : List String) : FileTree := ⟨(Node.dir []).put cwd (.dir []), cwd⟩

/-- What stands below the working directory: paths of files with what they hold, and paths of
directories with a slash behind them. -/
def listing (t : FileTree) : List (String × Option Content) :=
  match t.root.get? t.cwd with
  | some n => n.descendants.map fun (ss, m) =>
    match m with
    | .file c => (Path.ofSegments ss, some c)
    | .dir _ => (Path.ofSegments ss ++ "/", none)
  | none => []

/-- The order of two texts by code points. -/
def inOrder (a b : String) : Bool := a ≤ b

/-- What is new or different in `after`, in the order of the paths. -/
def changed (before after : FileTree) : List (String × Option Content) :=
  let old := before.listing
  (after.listing.filter fun (p, c) => Keyed.get? p old ≠ some c).mergeSort
    fun a b => inOrder a.1 b.1

/-- The paths of `before` that are gone in `after`, in their order. -/
def removed (before after : FileTree) : List String :=
  let new := after.listing
  ((before.listing.map (·.1)).filter fun p => Keyed.get? p new = none).mergeSort inOrder

end FileTree

end ResolverKit
