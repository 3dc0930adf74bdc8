/-!
# Places in a configuration text

A cursor is a place in a text: what follows, and the index, line and column of the place.  Line
ends are line feeds, next-line characters, and line and paragraph separators; a carriage return
does not occur, because a file is read with every line end as a line feed.

Main statement: a step moves by one character, so that loops end.
-/

namespace ResolverKit.ConfigText

/-! ## Characters -/

/-- The characters that end a line. -/
def isBreak (c : Char) : Bool := c == '\n' || c == '\x85' || c == '\u2028' || c == '\u2029'

/-- Space and tab. -/
def isGap (c : Char) : Bool := c == ' ' || c == '\t'

/-- What a line end stands for in a text: only the separators keep their own character. -/
def breakText (c : Char) : List Char := if c == '\x85' then ['\n'] else [c]

/-- The text ends, or a line end, space or tab comes next. -/
def endsWord : List Char → Bool
  | [] => true
  | c :: _ => isBreak c || isGap c

/-- The text ends, or a line end or space comes next. -/
def endsField : List Char → Bool
  | [] => true
  | c :: _ => isBreak c || c == ' '

def endsLine : List Char → Bool
  | [] => true
  | c :: _ => isBreak c

/-- The text goes on with three of these characters and the end of a word: a mark between
documents, if a line starts here. -/
def atMark (mark : Char) : List Char → Bool
  | a :: b :: c :: r => a == mark && b == mark && c == mark && endsWord r
  | _ => false

/-- A document starts or ends here, if a line starts here. -/
def atDocumentMark (cs : List Char) : Bool := atMark '-' cs || atMark '.' cs

/-! ## Cursors -/

/-- A place in a text. -/
structure Cursor where
  rest : List Char
  index : Nat
  line : Nat
  column : Nat
  deriving Repr

namespace Cursor

def start (text : List Char) : Cursor := ⟨text, 0, 0, 0⟩

/-- The next place.  A byte order mark takes no column. -/
def next (c : Cursor) : Cursor :=
  match c.rest with
  | [] => c
  | x :: r =>
    if isBreak x then ⟨r, c.index + 1, c.line + 1, 0⟩
    else if x == '\ufeff' then ⟨r, c.index + 1, c.line, c.column⟩
    else ⟨r, c.index + 1, c.line, c.column + 1⟩

/-- The place `n` characters further. -/
def skip : Nat → Cursor → Cursor
  | 0, c => c
  | n + 1, c => skip n c.next

/-- The characters from here on that have a property. -/
def run (p : Char → Bool) (c : Cursor) : List Char := c.rest.takeWhile p

/-- The place behind the characters that have a property. -/
def skipRun (p : Char → Bool) (c : Cursor) : Cursor := c.skip (c.run p).length

def skipSpaces (c : Cursor) : Cursor := c.skipRun (· == ' ')

/-- The place behind a comment, if one starts here. -/
def skipComment (c : Cursor) : Cursor :=
  if c.rest.head? = some '#' then c.skipRun (!isBreak ·) else c

/-- A place between tokens: behind spaces, comments and line ends.  The answer says whether a
line ended. -/
def skipBetween (c : Cursor) : Bool × Cursor :=
  let c' := c.skipSpaces.skipComment
  match c'.rest with
  | x :: _ =>
    if isBreak x then
      if c'.next.rest.length < c.rest.length then (true, (skipBetween c'.next).2)
      else (true, c'.next)
    else (false, c')
  | [] => (false, c')
termination_by c.rest.length

/-! ## Lemmas -/

theorem length_next (c : Cursor) : c.next.rest.length = c.rest.length - 1 := by
  unfold next
  split
  · simp [*]
  · split
    · simp [*]
    · split <;> simp [*]

theorem length_next_lt {c : Cursor} {x : Char} {r : List Char} (h : c.rest = x :: r) :
    c.next.rest.length < c.rest.length := by
  rw [length_next, h]
  simp

theorem rest_next (c : Cursor) : c.next.rest = c.rest.tail := by
  unfold next
  split
  · simp [*]
  · split
    · simp [*]
    · split <;> simp [*]

end Cursor

end ResolverKit.ConfigText
