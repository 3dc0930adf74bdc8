import ResolverKit.Text.Split

/-!
# Paths

Paths are texts of segments with slashes between them.  `normalize` drops empty and current
segments and lets a parent segment take back the one before it; `absolute` makes a path start at
the root first; `relative?` leads from one directory to a path.  All of this looks at the text of
the paths only, never at files.
-/

namespace ResolverKit.Path

/-! ## Segments -/

def segments (p : String) : List String := (Text.pieces '/' p.toList).map String.ofList

def ofSegments (ss : List String) : String := "/".intercalate ss

/-- The path starts at the root. -/
def isAbsolute (p : String) : Bool := p.toList.head? = some '/'

/-- The slashes that a normal path keeps at its front: two if there are exactly two, else at most
one. -/
def rootSlashes : List Char → Nat
  | '/' :: '/' :: '/' :: _ => 1
  | '/' :: '/' :: _ => 2
  | '/' :: _ => 1
  | _ => 0

/-! ## Operations -/

/-- Adds a segment to those read so far, the last of which comes first.  A parent segment takes
one back, and stands only where there is none to take in a path that does not start at the root. -/
def pushSegment (rooted : Bool) (stack : List String) (s : String) : List String :=
  if s = "" || s = "." then stack
  else if s ≠ ".." then s :: stack
  else
    match stack with
    | [] => if rooted then [] else [s]
    | last :: below => if last = ".." then s :: stack else below

/-- The segments left when empty, current and parent segments are worked off. -/
def normalSegments (rooted : Bool) (ss : List String) : List String :=
  (ss.foldl (pushSegment rooted) []).reverse

/-- The path in its shortest form; a dot if nothing is left. -/
def normalize (p : String) : String :=
  let slashes := rootSlashes p.toList
  let text := String.ofList (List.replicate slashes '/') ++
    ofSegments (normalSegments (slashes ≠ 0) (segments p))
  if text = "" then "." else text

/-- The path `p` as seen from the directory `base`. -/
def join (base p : String) : String :=
  if isAbsolute p || base = "" then p
  else if base.toList.getLast? = some '/' then base ++ p
  else base ++ "/" ++ p

/-- The path from the root, for the working directory `cwd`. -/
def absolute (cwd p : String) : String := normalize (if isAbsolute p then p else join cwd p)

/-- Drops the slashes at the end, unless there is nothing else. -/
def trimSlashes (cs : List Char) : List Char :=
  if cs.all (· = '/') then cs else (cs.reverse.dropWhile (· = '/')).reverse

/-- What stands before the last slash, and what stands behind it. -/
def splitLast (cs : List Char) : List Char × List Char :=
  let size := (cs.reverse.takeWhile (· ≠ '/')).length
  (trimSlashes (cs.take (cs.length - size)), cs.drop (cs.length - size))

/-- The directory part of a path; empty if the path has no slash. -/
def dirname (p : String) : String := String.ofList (splitLast p.toList).1

/-- The last segment of a path; empty if the path ends with a slash. -/
def basename (p : String) : String := String.ofList (splitLast p.toList).2

/-- Two lists without the longest front they share. -/
def dropShared : List String → List String → List String × List String
  | a :: as, b :: bs => if a = b then dropShared as bs else (a :: as, b :: bs)
  | as, bs => (as, bs)

/-- The path that leads from the directory `start` to `p`; an empty path leads nowhere. -/
def relative? (cwd p start : String) : Option String :=
  if p = "" then none
  else
    let parts (q : String) := (segments (absolute cwd q)).filter (· ≠ "")
    let (up, down) := dropShared (parts start) (parts p)
    match up.map (fun _ => "..") ++ down with
    | [] => some "."
    | ss => some (ofSegments ss)

/-! ## Lemmas -/

theorem length_trimSlashes_le (cs : List Char) : (trimSlashes cs).length ≤ cs.length := by
  unfold trimSlashes
  split
  · exact Nat.le_refl _
  · have := (List.dropWhile_suffix (fun c => decide (c = '/')) (l := cs.reverse)).length_le
    simpa using this

theorem length_splitLast_le (cs : List Char) :
    (splitLast cs).1.length + (splitLast cs).2.length ≤ cs.length := by
  have := length_trimSlashes_le (cs.take (cs.length - (cs.reverse.takeWhile (· ≠ '/')).length))
  simp only [splitLast, List.length_drop]
  rw [List.length_take] at this
  omega

/-- A path whose last segment is not empty is longer than its directory part. -/
theorem length_splitLast_lt {cs : List Char} (h : (splitLast cs).2 ≠ []) :
    (splitLast cs).1.length < cs.length := by
  have := length_splitLast_le cs
  have := List.length_pos_iff.2 h
  omega

end ResolverKit.Path
