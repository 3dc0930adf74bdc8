import ResolverKit.ConfigText.Cursor
import ResolverKit.ConfigText.Token
import ResolverKit.Text.Digit

/-!
# Scalars of configuration texts

The four ways to write a text: plain, between single or double quotes, and as a block of indented
lines.  Lines of a plain or quoted text are folded: a single line end is a space, and of several
the first is dropped.
-/

namespace ResolverKit.ConfigText

open Text (CodePoint CodeText)

/-- A text with the place behind it. -/
abbrev Scanned := Except ReadError (List Char × Cursor)

/-- A text that may hold escapes, with the place behind it. -/
abbrev ScannedCode := Except ReadError (CodeText × Cursor)

/-- A text without escapes. -/
def Scanned.code (s : Scanned) : ScannedCode := s.map fun (cs, c) => (.ofChars cs, c)

/-- What a line end and the further line ends behind it stand for. -/
def fold (first : Char) (more : List Char) : List Char :=
  if breakText first ≠ ['\n'] then breakText first ++ more
  else if more = [] then [' ']
  else more

/-! ## Plain texts -/

/-- The brackets and the comma of flow collections. -/
def isFlowMark (c : Char) : Bool :=
  c == ',' || c == '[' || c == ']' || c == '{' || c == '}'

/-- The piece of a plain text up to a gap, a colon at the end of a word, or a mark of the flow
collection around it. -/
def plainPiece (inFlow : Bool) : List Char → List Char
  | [] => []
  | c :: r =>
    if isBreak c || isGap c then []
    else if c == ':' && (endsWord r || (inFlow && r.head?.any isFlowMark)) then []
    else if inFlow && (c == '?' || isFlowMark c) then []
    else c :: plainPiece inFlow r

/-- The line ends from here on with the spaces between them; nothing if a document starts or ends
behind one of them. -/
def plainBreaks (c : Cursor) : Option (List Char) × Cursor :=
  match _h : c.rest with
  | [] => (some [], c)
  | x :: _ =>
    if x == ' ' then plainBreaks c.next
    else if isBreak x then
      if atDocumentMark c.next.rest then (none, c.next)
      else
        let (more, c') := plainBreaks c.next
        (more.map (breakText x ++ ·), c')
    else (some [], c)
termination_by c.rest.length
decreasing_by all_goals exact Cursor.length_next_lt _h

/-- What lies between two pieces of a plain text: the text that it stands for, which is empty if
the text ends here, whether it contains a line end, and the place behind it. -/
structure PlainGap where
  text : List Char
  broken : Bool
  behind : Cursor
  deriving Repr

def plainGap (c : Cursor) : PlainGap :=
  let c' := c.skipSpaces
  match c'.rest with
  | x :: _ =>
    if isBreak x then
      if atDocumentMark c'.next.rest then ⟨[], true, c'.next⟩
      else
        match plainBreaks c'.next with
        | (some more, behind) => ⟨fold x more, true, behind⟩
        | (none, behind) => ⟨[], true, behind⟩
    else ⟨c.run (· == ' '), false, c'⟩
  | [] => ⟨c.run (· == ' '), false, c'⟩

/-- The plain text from here on: its text, whether a line end follows, and the place behind it;
nothing if there is no piece here.  In a block its lines are indented at least by `indent`. -/
def plainText (inFlow : Bool) (indent : Int) (c : Cursor) :
    Option (List Char × Bool × Cursor) :=
  let piece := plainPiece inFlow c.rest
  if c.rest.head? = some '#' || piece = [] then none
  else
    let gap := plainGap (c.skip piece.length)
    let last := some (piece, gap.broken, gap.behind)
    if gap.text = [] || (!inFlow && gap.behind.column < indent) then last
    else if gap.behind.rest.length < c.rest.length then
      match plainText inFlow indent gap.behind with
      | some (more, broken, behind) => some (piece ++ gap.text ++ more, broken, behind)
      | none => last
    else last
termination_by c.rest.length

/-! ## Quoted texts -/

/-- The line ends from here on with the blanks between them.  No document may start or end
here. -/
def quotedBreaks (c : Cursor) : Scanned :=
  if atDocumentMark c.rest then .error .malformed
  else
    let c' := c.skipRun isGap
    match c'.rest with
    | x :: _ =>
      if _h : isBreak x ∧ c'.next.rest.length < c.rest.length then do
        let (more, behind) ← quotedBreaks c'.next
        return (breakText x ++ more, behind)
      else .ok ([], c')
    | [] => .ok ([], c')
termination_by c.rest.length
decreasing_by exact _h.2

/-- What a backslash and this character stand for. -/
def escaped? (c : Char) : Option Char :=
  match c with
  | '0' => some '\x00'
  | 'a' => some '\x07'
  | 'b' => some '\x08'
  | 't' => some '\t'
  | '\t' => some '\t'
  | 'n' => some '\n'
  | 'v' => some '\x0b'
  | 'f' => some '\x0c'
  | 'r' => some '\r'
  | 'e' => some '\x1b'
  | ' ' => some ' '
  | '"' => some '"'
  | '\\' => some '\\'
  | '/' => some '/'
  | 'N' => some '\x85'
  | '_' => some '\xa0'
  | 'L' => some '\u2028'
  | 'P' => some '\u2029'
  | _ => none

/-- How many hexadecimal digits follow a backslash and this character. -/
def codeSize? (c : Char) : Option Nat :=
  match c with
  | 'x' => some 2
  | 'u' => some 4
  | 'U' => some 8
  | _ => none

def codePoint (n : Nat) : Except ReadError CodePoint :=
  if 0x110000 ≤ n then .error (.scalar (.codePoint n))
  else if Text.isScalarValue n then .ok (.char (Char.ofNat n))
  else .ok (.surrogate n)

/-- The code point for hexadecimal digits, of which there have to be `size`. -/
def coded (size : Nat) (c : Cursor) : Except ReadError (CodePoint × Cursor) := do
  let digits := c.rest.take size
  if digits.length < size then throw .malformed
  match Text.hexNumber? digits with
  | some n => return (← codePoint n, c.skip size)
  | none => throw .malformed

/-- What the backslash in front of this place stands for, with the place behind it. -/
def escape (c : Cursor) : ScannedCode :=
  match c.rest with
  | [] => .error .malformed
  | x :: _ =>
    match escaped? x, codeSize? x with
    | some y, _ => .ok ([.char y], c.next)
    | none, some size => do
      let (y, behind) ← coded size c.next
      return ([y], behind)
    | none, none => if isBreak x then (quotedBreaks c.next).code else .error .malformed

/-- Blanks and perhaps line ends in a quoted text: what they stand for. -/
def quotedGap (c : Cursor) : Scanned :=
  let c' := c.skipRun isGap
  match c'.rest with
  | [] => .error .malformed
  | x :: _ =>
    if isBreak x then do
      let (more, behind) ← quotedBreaks c'.next
      return (fold x more, behind)
    else .ok (c.run isGap, c')

/-- What stands for one part of a text in these quotes: a character, an escape or a gap. -/
def quotedPart (quote : Char) (c : Cursor) (x : Char) : ScannedCode :=
  if isGap x || isBreak x then (quotedGap c).code
  else if x == '\\' && quote == '"' then escape c.next
  else .ok ([.char x], c.next)

/-- The text up to the closing quote, and the place behind the quote. -/
def quotedText (quote : Char) (c : Cursor) : ScannedCode :=
  match c.rest with
  | [] => .error .malformed
  | x :: r =>
    if x == quote then
      if quote == '\'' && r.head? = some '\'' then
        if (c.skip 2).rest.length < c.rest.length then do
          let (more, behind) ← quotedText quote (c.skip 2)
          return (.char '\'' :: more, behind)
        else .error .malformed
      else .ok ([], c.next)
    else
      match quotedPart quote c x with
      | .error e => .error e
      | .ok (part, c') =>
        if c'.rest.length < c.rest.length then do
          let (more, behind) ← quotedText quote c'
          return (part ++ more, behind)
        else .error .malformed
termination_by c.rest.length

/-! ## Block texts -/

/-- What happens to the line ends at the end of a block text: all stay, none stays, or one. -/
inductive Chomping
  | keep | strip | clip
  deriving DecidableEq, Repr

/-- The header of a block text: the line ends at its end, and how far it is indented if that is
said. -/
structure BlockHeader where
  chomping : Chomping
  increment : Option Nat
  deriving DecidableEq, Repr

/-- The mark for line ends. -/
def chomping? (c : Char) : Option Chomping :=
  if c == '+' then some .keep
  else if c == '-' then some .strip
  else none

/-- The mark for the indentation, if there is one; it is not zero. -/
def increment? : List Char → Except ReadError (Option Nat)
  | c :: _ =>
    if c == '0' then .error .malformed
    else if c.isDigit then .ok (some (c.toNat - '0'.toNat))
    else .ok none
  | [] => .ok none

/-- The marks of the header in either order, and how many there are. -/
def headerMarks (cs : List Char) : Except ReadError (BlockHeader × Nat) := do
  match cs.head?.bind chomping? with
  | some chomping =>
    match ← increment? (cs.drop 1) with
    | some n => return (⟨chomping, some n⟩, 2)
    | none => return (⟨chomping, none⟩, 1)
  | none =>
    match ← increment? cs with
    | some n =>
      match (cs.drop 1).head?.bind chomping? with
      | some chomping => return (⟨chomping, some n⟩, 2)
      | none => return (⟨.clip, some n⟩, 1)
    | none => return (⟨.clip, none⟩, 0)

/-- The place behind the rest of a line on which only a comment may stand. -/
def skipRestOfLine (c : Cursor) : Except ReadError Cursor :=
  let c' := c.skipSpaces.skipComment
  if endsLine c'.rest then .ok c'.next else .error .malformed

/-- The header of a block text, and the place behind its line. -/
def blockHeader (c : Cursor) : Except ReadError (BlockHeader × Cursor) := do
  let (header, size) ← headerMarks c.rest
  let c' := c.skip size
  if !endsField c'.rest then throw .malformed
  return (header, ← skipRestOfLine c')

/-- The line ends from here on with the spaces between them, the largest column reached, and the
place behind them. -/
def blockIndentation (c : Cursor) : List Char × Nat × Cursor :=
  match _h : c.rest with
  | [] => ([], 0, c)
  | x :: _ =>
    if x == ' ' then
      let (breaks, column, behind) := blockIndentation c.next
      (breaks, max c.next.column column, behind)
    else if isBreak x then
      let (breaks, column, behind) := blockIndentation c.next
      (breakText x ++ breaks, column, behind)
    else ([], 0, c)
termination_by c.rest.length
decreasing_by all_goals exact Cursor.length_next_lt _h

/-- The line ends from here on, each with up to `indent` spaces behind it. -/
def blockBreaks (indent : Nat) (c : Cursor) : List Char × Cursor :=
  match _h : c.rest with
  | [] => ([], c)
  | x :: _ =>
    if x == ' ' && c.column < indent then blockBreaks indent c.next
    else if isBreak x then
      let (more, behind) := blockBreaks indent c.next
      (breakText x ++ more, behind)
    else ([], c)
termination_by c.rest.length
decreasing_by all_goals exact Cursor.length_next_lt _h

/-- A block text as it is read: its lines, the line end behind the last one, the further line ends,
and the place behind all. -/
structure BlockText where
  lines : List Char
  lastBreak : List Char
  more : List Char
  behind : Cursor
  deriving Repr

def atBlockLine (indent : Nat) (c : Cursor) : Bool := c.column == indent && !c.rest.isEmpty

/-- What stands between a line of a block and the next one: `lineBreak` ends the line and
`breaks` follow. -/
def blockJoint (folded : Bool) (line lineBreak breaks next : List Char) : List Char :=
  if folded && lineBreak == ['\n'] && !line.head?.any isGap && !next.head?.any isGap then
    if breaks = [] then [' '] else []
  else lineBreak

/-- The lines of a block from here on; `breaks` are the line ends in front of them. -/
def blockLines (folded : Bool) (indent : Nat) (breaks : List Char) (c : Cursor) : BlockText :=
  if !atBlockLine indent c then ⟨[], [], breaks, c⟩
  else
    let line := c.run (!isBreak ·)
    let atEnd := c.skip line.length
    let lineBreak := (atEnd.rest.head?.map breakText).getD []
    let (breaks', c') := blockBreaks indent atEnd.next
    if atBlockLine indent c' then
      if c'.rest.length < c.rest.length then
        let t := blockLines folded indent breaks' c'
        ⟨breaks ++ line ++ blockJoint folded line lineBreak breaks' c'.rest ++ t.lines, t.lastBreak,
          t.more, t.behind⟩
      else ⟨breaks ++ line, lineBreak, breaks', c'⟩
    else ⟨breaks ++ line, lineBreak, breaks', c'⟩
termination_by c.rest.length

/-- The block text whose mark is in front of this place, inside a block that is indented by
`outer`. -/
def blockText (folded : Bool) (outer : Int) (c : Cursor) : Scanned := do
  let (header, c) ← blockHeader c
  let least := max (outer + 1) 1
  let t :=
    match header.increment with
    | some n =>
      let indent := (least + n - 1).toNat
      let (breaks, c) := blockBreaks indent c
      blockLines folded indent breaks c
    | none =>
      let (breaks, column, c) := blockIndentation c
      blockLines folded (max least column).toNat breaks c
  let tail := match header.chomping with
    | .keep => t.lastBreak ++ t.more
    | .clip => t.lastBreak
    | .strip => []
  return (t.lines ++ tail, t.behind)

end ResolverKit.ConfigText
