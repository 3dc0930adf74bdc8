import ResolverKit.ConfigText.Property

/-!
# Lexer of configuration texts

`tokens` cuts a configuration text into its tokens.  A key in front of a colon is recognised only
when the colon comes, so that the place of every possible key is kept, one for each open flow
collection and one for the block around them; the key token is then put into the tokens at that
place.  Blocks have no brackets: the tokens that open and close them follow from the columns.

A fault in the text hides the tokens behind it, and those in front of it that a key token could
still have come before.
-/

namespace ResolverKit.ConfigText

/-! ## State -/

/-- A place where a key may have started: the number of tokens in front of it, whether nothing but
a key can stand there, and the place itself. -/
structure PossibleKey where
  position : Nat
  required : Bool
  index : Nat
  line : Nat
  column : Nat
  deriving Repr

/-- What has been scanned: the place, the tokens with the last one first, the possible keys of the
innermost collection and of the ones around it, the columns of the open blocks, and whether a key
may start here. -/
structure Scanner where
  cursor : Cursor
  tokens : List Token
  current : Option PossibleKey
  outer : List (Option PossibleKey)
  indent : Int
  indents : List Int
  keyAllowed : Bool
  deriving Repr

def Scanner.start (text : List Char) : Scanner := ⟨.start text, [], none, [], -1, [], true⟩

/-- The place lies in a flow collection. -/
def Scanner.inFlow (s : Scanner) : Bool := !s.outer.isEmpty

/-- A step of scanning. -/
abbrev Scan := StateT Scanner (Except ReadError)

namespace Scan

def refuse {α : Type} : Scan α := throw .malformed

def emit (t : Token) : Scan Unit := modify fun s => { s with tokens := t :: s.tokens }

def moveTo (c : Cursor) : Scan Unit := modify fun s => { s with cursor := c }

/-- Moves over a mark of `n` characters and adds its token. -/
def mark (n : Nat) (t : Token) : Scan Unit := do
  moveTo ((← get).cursor.skip n)
  emit t

/-- Says whether a key may start at the next token. -/
def allowKey (allowed : Bool) : Scan Unit := modify fun s => { s with keyAllowed := allowed }

/-! ## Possible keys -/

/-- The key as it is at this place: a key lies in one line and has at most 1024 characters. -/
def stillPossible (c : Cursor) (key : Option PossibleKey) : Except ReadError (Option PossibleKey) :=
  match key with
  | none => .ok none
  | some k =>
    if k.line = c.line && c.index - k.index ≤ 1024 then .ok (some k)
    else if k.required then .error .malformed
    else .ok none

def allStillPossible (c : Cursor) : List (Option PossibleKey) →
    Except ReadError (List (Option PossibleKey))
  | [] => .ok []
  | key :: r => do return (← stillPossible c key) :: (← allStillPossible c r)

/-- Drops the keys that are not possible any more. -/
def dropStale : Scan Unit := do
  let s ← get
  let current ← stillPossible s.cursor s.current
  let outer ← allStillPossible s.cursor s.outer
  set { s with current, outer }

/-- Drops the possible key of the innermost collection. -/
def dropKey : Scan Unit := do
  let s ← get
  match s.current with
  | some k => if k.required then refuse else set { s with current := none }
  | none => return

/-- Keeps this place as a possible key, if a key may start here. -/
def keepKey : Scan Unit := do
  if (← get).keyAllowed then
    dropKey
    modify fun s =>
      let c := s.cursor
      let required := !s.inFlow && s.indent == c.column
      { s with current := some ⟨s.tokens.length, required, c.index, c.line, c.column⟩ }

/-- Puts tokens in front of all but the first `n` tokens. -/
def insertAt (n : Nat) (new : List Token) : Scan Unit := modify fun s =>
  let later := s.tokens.length - n
  { s with tokens := s.tokens.take later ++ new.reverse ++ s.tokens.drop later }

/-! ## Indentation -/

def closeBlocks (column : Int) : Scan Unit := modify fun s =>
  let closed := (s.indent :: s.indents).takeWhile (column < ·)
  match (s.indent :: s.indents).drop closed.length with
  | indent :: indents =>
    { s with tokens := closed.map (fun _ => .blockEnd) ++ s.tokens, indent, indents }
  | [] => s

/-- Closes blocks unless the place lies in a flow collection. -/
def unwind (column : Int) : Scan Unit := do
  if !(← get).inFlow then closeBlocks column

/-- Opens a block at a column if the column is further in, and says whether it did. -/
def openBlock (column : Nat) : Scan Bool := do
  let s ← get
  if s.indent < column then
    set { s with indent := column, indents := s.indent :: s.indents }
    return true
  else return false

/-- In a block, a token that needs the start of a line opens a block of its kind if it is further
in. -/
def openBlockHere (t : Token) : Scan Unit := do
  let s ← get
  if !s.inFlow then
    if !s.keyAllowed then refuse
    if ← openBlock s.cursor.column then emit t

/-! ## Tokens -/

/-- Closes all blocks in front of a directive or a mark between documents. -/
def leaveDocument : Scan Unit := do
  unwind (-1)
  dropKey
  allowKey false

def directive : Scan Unit := do
  leaveDocument
  let (t, c) ← directiveToken (← get).cursor.next
  moveTo c
  emit t

def documentMark (t : Token) : Scan Unit := do
  leaveDocument
  mark 3 t

def openFlow (t : Token) : Scan Unit := do
  keepKey
  modify fun s => { s with current := none, outer := s.current :: s.outer }
  allowKey true
  mark 1 t

def closeFlow (t : Token) : Scan Unit := do
  dropKey
  let s ← get
  match s.outer with
  | key :: outer => set { s with current := key, outer }
  | [] => refuse
  allowKey false
  mark 1 t

def flowEntry : Scan Unit := do
  allowKey true
  dropKey
  mark 1 .flowEntry

/-- The dash of a block sequence. -/
def blockEntry : Scan Unit := do
  openBlockHere .blockSequenceStart
  allowKey true
  dropKey
  mark 1 .blockEntry

/-- The question mark in front of a key. -/
def explicitKey : Scan Unit := do
  openBlockHere .blockMappingStart
  allowKey (!(← get).inFlow)
  dropKey
  mark 1 .key

/-- The colon in front of a value.  If a key was possible, it is one. -/
def value : Scan Unit := do
  let s ← get
  match s.current with
  | some k =>
    modify fun s => { s with current := none }
    let opens ← if s.inFlow then pure false else openBlock k.column
    insertAt k.position (if opens then [.blockMappingStart, .key] else [.key])
    allowKey false
  | none =>
    openBlockHere .blockMappingStart
    allowKey (!s.inFlow)
    dropKey
  mark 1 .value

/-- A token that may be or start a key; none starts behind it in the same line. -/
def keyPart (scan : Cursor → Except ReadError (Token × Cursor)) : Scan Unit := do
  keepKey
  allowKey false
  let (t, c) ← scan (← get).cursor
  moveTo c
  emit t

def quoted (quote : Char) : Scan Unit := keyPart fun c => do
  let (text, c') ← quotedText quote c.next
  return (.scalar text false, c')

def plain : Scan Unit := do
  keepKey
  let s ← get
  match plainText s.inFlow (s.indent + 1) s.cursor with
  | some (text, broken, c) =>
    allowKey broken
    moveTo c
    emit (.scalar (.ofChars text) true)
  | none => refuse

def block (folded : Bool) : Scan Unit := do
  allowKey true
  dropKey
  let s ← get
  let (text, c) ← blockText folded s.indent s.cursor.next
  moveTo c
  emit (.scalar (.ofChars text) false)

/-! ## Choice of the token -/

/-- A plain text may start with these characters: neither a mark nor a quote, unless a dash, or in
a block a question mark or colon, stands in front of a word. -/
def startsPlain (inFlow : Bool) (c : Char) (r : List Char) : Bool :=
  !(isBreak c || isGap c || "-?:,[]\x7b\x7d#&*!|>'\"%@\x60".toList.contains c) ||
    (!endsWord r && (c == '-' || (!inFlow && (c == '?' || c == ':'))))

def token (c : Char) (r : List Char) : Scan Unit := do
  let s ← get
  let lineStart := s.cursor.column == 0
  let wordMark := s.inFlow || endsWord r
  if c == '%' && lineStart then directive
  else if lineStart && atMark '-' (c :: r) then documentMark .documentStart
  else if lineStart && atMark '.' (c :: r) then documentMark .documentEnd
  else if c == '[' then openFlow .flowSequenceStart
  else if c == '{' then openFlow .flowMappingStart
  else if c == ']' then closeFlow .flowSequenceEnd
  else if c == '}' then closeFlow .flowMappingEnd
  else if c == ',' then flowEntry
  else if c == '-' && endsWord r then blockEntry
  else if c == '?' && wordMark then explicitKey
  else if c == ':' && wordMark then value
  else if c == '*' then
    keyPart fun c => (anchorName c.next).map fun (name, c') => (.aliasOf name, c')
  else if c == '&' then
    keyPart fun c => (anchorName c.next).map fun (name, c') => (.anchor name, c')
  else if c == '!' then keyPart tagToken
  else if c == '|' && !s.inFlow then block false
  else if c == '>' && !s.inFlow then block true
  else if c == '\'' || c == '"' then quoted c
  else if startsPlain s.inFlow c r then plain
  else refuse

/-- Moves to the next token; behind a line end a key may start, unless in a flow collection. -/
def toNextToken : Scan Unit := modify fun s =>
  let (broken, cursor) := s.cursor.skipBetween
  { s with cursor, keyAllowed := s.keyAllowed || (broken && !s.inFlow) }

/-- Scans the next token, and says whether there was one. -/
def step : Scan Bool := do
  toNextToken
  dropStale
  unwind (← get).cursor.column
  match (← get).cursor.rest with
  | [] =>
    unwind (-1)
    dropKey
    return false
  | c :: r =>
    token c r
    return true

end Scan

/-! ## Whole texts -/

/-- The number of tokens that are settled: a key token can still come in front of the others. -/
def Scanner.settled (s : Scanner) : Nat :=
  ((s.current :: s.outer).filterMap (·.map (·.position))).foldl min s.tokens.length

/-- The first `n` tokens, with the fault behind them. -/
def Scanner.upTo (s : Scanner) (n : Nat) (fault : ReadError) : TokenList :=
  ⟨s.tokens.reverse.take n, some fault⟩

/-- All tokens, from a state on in which `settled` tokens have been settled before. -/
def scanFrom (settled : Nat) (s : Scanner) : TokenList :=
  match Scan.dropStale s with
  | .error e => s.upTo settled e
  | .ok (_, s') =>
    match Scan.step s' with
    | .error e => s'.upTo s'.settled e
    | .ok (false, s'') => ⟨s''.tokens.reverse, none⟩
    | .ok (true, s'') =>
      if s''.cursor.rest.length < s.cursor.rest.length then scanFrom s'.settled s''
      else s''.upTo s'.settled .malformed
termination_by s.cursor.rest.length

/-- A character that may stand in a text. -/
def isAllowed (c : Char) : Bool :=
  let n := c.toNat
  n == 9 || n == 10 || n == 13 || (0x20 ≤ n && n ≤ 0x7e) || n == 0x85 ||
    (0xa0 ≤ n && n != 0xfffe && n != 0xffff)

/-- The text without a byte order mark in front. -/
def dropByteOrderMark : List Char → List Char
  | '\ufeff' :: r => r
  | cs => cs

/-- The tokens of a text.  A character that may not stand there hides all of them. -/
def tokens (text : List Char) : TokenList :=
  if text.all isAllowed then scanFrom 0 (.start (dropByteOrderMark text)) else ⟨[], some .malformed⟩

end ResolverKit.ConfigText
