/-!
# Similar words

Which of some words a mistyped word may stand for.  Two words are similar if the parts that they
share, found from the longest one outwards, make up at least three fifths of both together.
-/

namespace ResolverKit.Command

/-! ## Shared parts -/

/-- The number of characters that two texts share from their fronts on. -/
def sharedFront : List Char → List Char → Nat
  | a :: as, b :: bs => if a = b then sharedFront as bs + 1 else 0
  | _, _ => 0

/-- A part that two texts share: where it starts in each, and its size. -/
structure SharedPart where
  left : Nat
  right : Nat
  size : Nat
  deriving DecidableEq, Repr

/-- The longest part that two texts share; of several the one that comes first in the left text,
then in the right one. -/
def longestShared (a b : List Char) : SharedPart :=
  let parts := (List.range a.length).flatMap fun i =>
    (List.range b.length).map fun j => SharedPart.mk i j (sharedFront (a.drop i) (b.drop j))
  parts.foldl (fun best p => if best.size < p.size then p else best) ⟨0, 0, 0⟩

/-- The number of characters in the parts that two texts share: the longest part, and what is
shared on either side of it. -/
def sharedSize (a b : List Char) : Nat :=
  let p := longestShared a b
  let before := a.take p.left
  let behind := a.drop (p.left + p.size)
  if _h : before.length < a.length ∧ behind.length < a.length then
    sharedSize before (b.take p.right) + p.size + sharedSize behind (b.drop (p.right + p.size))
  else p.size
termination_by a.length
decreasing_by
  · exact _h.1
  · exact _h.2

/-! ## Choice -/

/-- A word with the size of what it shares with another, and the size of both. -/
structure Candidate where
  word : String
  shared : Nat
  total : Nat
  deriving Repr

/-- The order of candidates: those that share more come first. -/
def Candidate.before (c d : Candidate) : Bool :=
  let x := c.shared * d.total
  let y := d.shared * c.total
  y < x || (x == y && d.word ≤ c.word)

/-- At most three of the words, those most similar to `word` first. -/
def similar (word : String) (words : List String) : List String :=
  let candidates := words.map fun w =>
    Candidate.mk w (sharedSize w.toList word.toList) (w.length + word.length)
  (((candidates.filter fun c => 3 * c.total ≤ 10 * c.shared).mergeSort Candidate.before).take 3).map
    (·.word)

end ResolverKit.Command
