import ResolverKit.FileTree

/-!
# Symbolic links

A file tree has no links.  A table of links beside it says where links stand and which path each of
them holds.  A path is followed to one that leads to the same place without links, and every
operation is that of the tree at this path; only a new directory never stands behind a link.

    follow: a/l/x with the link a/l → ../b leads to a/../b/x

Operations neither make nor remove links, so the table stays as it is.
-/

namespace ResolverKit

/-- Links: the place where each stands, and the path that it holds. -/
structure Links where
  entries : List (List String × String)
  deriving DecidableEq, Repr

namespace Links

/-! ## Following links -/

def empty : Links := ⟨[]⟩

/-- How many links one path may lead through. -/
def maxFollowed : Nat := 40

/-- What the link `name` holds that stands where the segments `way` lead to. -/
def held? (links : Links) (t : FileTree) (way : List String) (name : String) : Option String :=
  match FileTree.walk t.root (if way.head? = some "" then [] else t.cwd) way with
  | .ok here => Keyed.get? (here ++ [name]) links.entries
  | .error _ => none

/-- Follows segments behind a way without links.  At a link it goes on as `behind` says, from the
way that the link starts from and with the segments that are left. -/
def walk (links : Links) (t : FileTree)
    (behind : List String → List String → Except AccessError (List String))
    (way : List String) : List String → Except AccessError (List String)
  | [] => .ok way
  | s :: r =>
    match links.held? t way s with
    | none => walk links t behind (way ++ [s]) r
    | some p => behind (if Path.isAbsolute p then [] else way) (Path.segments p ++ r)

/-- Segments that lead to the same place without links, of which so many may be followed. -/
def follow (links : Links) (t : FileTree) :
    Nat → (way ss : List String) → Except AccessError (List String)
  | 0 => links.walk t fun _ _ => .error .tooManyLinks
  | budget + 1 => links.walk t (follow links t budget)

/-- The path that leads to the same place without links. -/
def direct (links : Links) (t : FileTree) (p : String) : Except AccessError String :=
  match FileTree.unusable? p with
  | some e => .error e
  | none => (links.follow t maxFollowed [] (Path.segments p)).map Path.ofSegments

/-- The last name of the path is that of a link. -/
def endsInLink (links : Links) (t : FileTree) (p : String) : Bool :=
  match (Path.segments p).reverse.dropWhile (· = "") with
  | [] => false
  | last :: before =>
    match links.follow t maxFollowed [] before.reverse with
    | .ok way => (links.held? t way last).isSome
    | .error _ => false

/-! ## Looking up -/

/-- The path leads to a node. -/
def exists? (links : Links) (t : FileTree) (p : String) : Bool :=
  match links.direct t p with
  | .ok q => t.exists? q
  | .error _ => false

/-- The path leads to a directory. -/
def isDir (links : Links) (t : FileTree) (p : String) : Bool :=
  match links.direct t p with
  | .ok q => t.isDir q
  | .error _ => false

/-! ## Writing -/

/-- The tree with the text in the file that the path leads to.  A link to nothing is a link to the
new file. -/
def write (links : Links) (t : FileTree) (p text : String) : Except AccessError FileTree := do
  t.write (← links.direct t p) text

/-- The tree with the new directory `p`.  Where a link stands there is no room for it, even if the
link leads to nothing. -/
def createDir (links : Links) (t : FileTree) (p : String) : Except AccessError FileTree :=
  if FileTree.unusable? p = none && links.endsInLink t p then .error .exists
  else do t.createDir (← links.direct t p)

/-- Creates the directory `p` unless there is one: the tree, and the failure if there was one. -/
def ensureDir (links : Links) (t : FileTree) (p : String) : FileTree × Option AccessFailure :=
  match links.createDir t p with
  | .ok t' => (t', none)
  | .error e =>
    if e ≠ .nullCharacter && links.isDir t p then (t, none) else (t, some ⟨e, p⟩)

/-- Creates the directory `p` and the directories on the way to it: the tree, and the first
failure. -/
def makeDirs (links : Links) (t : FileTree) (p : List Char) : FileTree × Option AccessFailure :=
  if _h : (FileTree.cutLast p).2 = [] then links.ensureDir t (String.ofList p)
  else
    let head := (FileTree.cutLast p).1
    if head = [] || links.exists? t (String.ofList head) then links.ensureDir t (String.ofList p)
    else
      match makeDirs links t head with
      | (t', some failure) =>
        if failure.cause = .exists then
          if (FileTree.cutLast p).2 = ['.'] then (t', none)
          else links.ensureDir t' (String.ofList p)
        else (t', some failure)
      | (t', none) =>
        if (FileTree.cutLast p).2 = ['.'] then (t', none)
        else links.ensureDir t' (String.ofList p)
termination_by p.length
decreasing_by exact FileTree.length_cutLast_lt _h

end Links

end ResolverKit
