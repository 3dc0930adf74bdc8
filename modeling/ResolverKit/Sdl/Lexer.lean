import ResolverKit.Sdl.Token
import ResolverKit.Text.CodePoint
import ResolverKit.Text.Digit
import ResolverKit.Text.Lines

/-!
# Lexer of schema texts

`tokens` cuts a schema text into its tokens.  Blanks, commas, byte order marks and comments stand
between tokens and are dropped.  The list ends with the end of the text, or with a broken token
at the first place where no token can be read; nothing is read past such a place.

Every reader of this module looks at the text from one place on and says how many characters it
takes, so that the rest is always a tail of the text.
-/

namespace ResolverKit.Sdl

open Text (hexNumber? hexValue? isScalarValue)

/-! ## Character classes -/

/-- Letters of the ASCII alphabet and the underscore start a name. -/
def isNameStart (c : Char) : Bool := c.isAlpha || c == '_'

/-- Names go on with letters, digits and underscores. -/
def isNameContinue (c : Char) : Bool := c.isAlphanum || c == '_'

/-- Characters that stand between tokens: space, tab, comma, byte order mark, row ends. -/
def isIgnored (c : Char) : Bool :=
  c == ' ' || c == '\t' || c == ',' || c == '\ufeff' || Text.isRowEnd c

/-! ## Numbers -/

/-- The digits at the front of the text, with at least one; `offset` is their place. -/
def digitRun (offset : Nat) (cs : List Char) : Except SyntaxError (List Char) :=
  match cs.takeWhile Char.isDigit with
  | [] => .error ⟨.digitExpected cs.head?, offset⟩
  | ds => .ok ds

/-- The digits before the fraction: a single zero, or digits that do not start with zero. -/
def wholePart (offset : Nat) : List Char → Except SyntaxError (List Char)
  | '0' :: c :: _ => if c.isDigit then .error ⟨.digitAfterZero c, offset + 1⟩ else .ok ['0']
  | cs => digitRun offset cs

/-- The fraction with its point, if the text goes on with one. -/
def fractionPart (offset : Nat) : List Char → Except SyntaxError (List Char)
  | '.' :: r => (digitRun (offset + 1) r).map ('.' :: ·)
  | _ => .ok []

/-- The exponent with its mark and sign, if the text goes on with one. -/
def exponentPart (offset : Nat) : List Char → Except SyntaxError (List Char)
  | c :: r =>
    if c = 'e' || c = 'E' then
      match r with
      | s :: r' =>
        if s = '+' || s = '-' then (digitRun (offset + 2) r').map (c :: s :: ·)
        else (digitRun (offset + 1) r).map (c :: ·)
      | [] => (digitRun (offset + 1) r).map (c :: ·)
    else .ok []
  | [] => .ok []

/-- The sign of a number, if it has one. -/
def signPart : List Char → List Char
  | '-' :: _ => ['-']
  | _ => []

/-- The number at the front of the text, and its length.  A point or a letter may not follow. -/
def number (offset : Nat) (cs : List Char) : Except SyntaxError (Lexeme × Nat) := do
  let sign := signPart cs
  let whole ← wholePart (offset + sign.length) (cs.drop sign.length)
  let taken := sign ++ whole
  let fraction ← fractionPart (offset + taken.length) (cs.drop taken.length)
  let taken := taken ++ fraction
  let exponent ← exponentPart (offset + taken.length) (cs.drop taken.length)
  let taken := taken ++ exponent
  let text := String.ofList taken
  let kind := if fraction.isEmpty && exponent.isEmpty then Lexeme.int text else .float text
  match cs.drop taken.length with
  | c :: _ =>
    if c = '.' || isNameStart c then
      .error ⟨.digitExpected (some c), offset + taken.length⟩
    else .ok (kind, taken.length)
  | [] => .ok (kind, taken.length)

/-! ## Strings -/

/-- The code point written by four digits at the front of the text. -/
def fourDigits? (cs : List Char) : Option Nat :=
  if (cs.take 4).length = 4 then hexNumber? (cs.take 4) else none

/-- Reads the digits of an escape in braces, up to the closing brace.  `size` is the number of
characters read so far and `room` the number that may still be read; `point` is the value of the
digits.  The answer is the value and the size, or the size at which the escape goes wrong. -/
def bracedDigits : (room size point : Nat) → List Char → Except Nat (Nat × Nat)
  | 0, size, _, _ => .error size
  | _ + 1, size, _, [] => .error size
  | room + 1, size, point, c :: r =>
    if c = '}' then
      if size + 1 < 5 || !isScalarValue point then .error (size + 1) else .ok (point, size + 1)
    else
      match hexValue? c with
      | some d => bracedDigits room (size + 1) (16 * point + d) r
      | none => .error (size + 1)

/-- The character that an escape with braces stands for, and the length of the escape; the text
starts with the backslash.  An escape has at most twelve characters. -/
def bracedEscape (cs : List Char) : Except Reason (Char × Nat) :=
  match bracedDigits 9 3 0 (cs.drop 3) with
  | .ok (point, size) => .ok (Char.ofNat point, size)
  | .error size => .error (.badUnicodeEscape (String.ofList (cs.take size)))

/-- The character that an escape of four digits stands for, and the length of the escape; two
escapes that form a surrogate pair are one character. -/
def plainUnicodeEscape (cs : List Char) : Except Reason (Char × Nat) :=
  let bad := Reason.badUnicodeEscape (String.ofList (cs.take 6))
  match fourDigits? (cs.drop 2) with
  | none => .error bad
  | some high =>
    if isScalarValue high then .ok (Char.ofNat high, 6)
    else if high ≤ 0xdbff && (cs.drop 6).take 2 == ['\\', 'u'] then
      match fourDigits? (cs.drop 8) with
      | some low =>
        if 0xdc00 ≤ low && low ≤ 0xdfff then
          .ok (Char.ofNat (0x10000 + (high - 0xd800) * 0x400 + (low - 0xdc00)), 12)
        else .error bad
      | none => .error bad
    else .error bad

/-- The character that a letter stands for behind a backslash. -/
def escapedChar? : Char → Option Char
  | '"' => some '"'
  | '\\' => some '\\'
  | '/' => some '/'
  | 'b' => some '\x08'
  | 'f' => some '\x0c'
  | 'n' => some '\n'
  | 'r' => some '\r'
  | 't' => some '\t'
  | _ => none

/-- The character that the escape at the front of the text stands for, and its length. -/
def escape (cs : List Char) : Except Reason (Char × Nat) :=
  match cs with
  | _ :: 'u' :: '{' :: _ => bracedEscape cs
  | _ :: 'u' :: _ => plainUnicodeEscape cs
  | _ :: c :: _ =>
    match escapedChar? c with
    | some d => .ok (d, 2)
    | none => .error (.badEscape (String.ofList (cs.take 2)))
  | _ => .error (.badEscape (String.ofList (cs.take 2)))

/-- The characters of a string behind its opening quote, and how many were read with the closing
quote. -/
def quotedChars (offset : Nat) (cs : List Char) : Except SyntaxError (List Char × Nat) :=
  match cs with
  | [] => .error ⟨.unterminatedString, offset⟩
  | c :: r =>
    if c = '"' then .ok ([], 1)
    else if Text.isRowEnd c then .error ⟨.unterminatedString, offset⟩
    else if c = '\\' then
      match escape (c :: r) with
      | .error reason => .error ⟨reason, offset⟩
      | .ok (d, size) =>
        (quotedChars (offset + size) (r.drop (size - 1))).map fun (s, n) => (d :: s, size + n)
    else (quotedChars (offset + 1) r).map fun (s, n) => (c :: s, n + 1)
termination_by cs.length
decreasing_by all_goals simp only [List.length_cons, List.length_drop]; omega

/-- The characters of a block string behind its opening quotes, and how many were read with the
closing quotes.  An escaped triple quote stands for itself. -/
def blockChars (offset : Nat) : List Char → Except SyntaxError (List Char × Nat)
  | [] => .error ⟨.unterminatedString, offset⟩
  | '"' :: '"' :: '"' :: _ => .ok ([], 3)
  | '\\' :: '"' :: '"' :: '"' :: r =>
    (blockChars (offset + 4) r).map fun (s, n) => ('"' :: '"' :: '"' :: s, n + 4)
  | c :: r => (blockChars (offset + 1) r).map fun (s, n) => (c :: s, n + 1)

/-- Spaces and tabs indent a row. -/
def isIndent (c : Char) : Bool := c == ' ' || c == '\t'

/-- The row holds nothing but indentation. -/
def isBlankRow (row : List Char) : Bool := row.all isIndent

/-- The least indentation of the rows behind the first, blank rows not counted. -/
def commonIndent (rows : List (List Char)) : Nat :=
  let widths := (rows.tail.filter (!isBlankRow ·)).map fun row => (row.takeWhile isIndent).length
  widths.min?.getD 0

/-- The rows of a block string: the common indentation goes from all rows but the first, then
blank rows go from both ends. -/
def dedent (rows : List (List Char)) : List (List Char) :=
  let common := commonIndent rows
  let dropBlank (rs : List (List Char × Bool)) := rs.dropWhile (·.2)
  let marked := rows.map fun row => (row, isBlankRow row)
  let shifted := match marked with
    | [] => []
    | first :: rest => first :: rest.map fun (row, blank) => (row.drop common, blank)
  (dropBlank (dropBlank shifted).reverse).reverse.map (·.1)

/-- The value of a block string with these characters between its quotes. -/
def blockValue (cs : List Char) : String :=
  String.ofList (['\n'].intercalate (dedent (Text.splitRows cs)))

/-! ## Tokens -/

/-- The first lexeme of a text that starts neither with an ignored character nor with a comment,
and its length. -/
def lexeme (offset : Nat) (cs : List Char) : Except SyntaxError (Lexeme × Nat) :=
  match cs with
  | '"' :: '"' :: '"' :: r =>
    (blockChars (offset + 3) r).map fun (s, n) => (.string ⟨blockValue s, true⟩, n + 3)
  | '"' :: r =>
    (quotedChars (offset + 1) r).map fun (s, n) => (.string ⟨String.ofList s, false⟩, n + 1)
  | '.' :: '.' :: '.' :: _ => .ok (.punct .spread, 3)
  | '.' :: '.' :: _ => .error ⟨.twoDots, offset⟩
  | '.' :: r =>
    match r.takeWhile Char.isDigit with
    | [] => .error ⟨.unknownCharacter '.', offset⟩
    | ds => .error ⟨.leadingDot (String.ofList ds), offset⟩
  | c :: _ =>
    match Punctuator.ofChar? c with
    | some p => .ok (.punct p, 1)
    | none =>
      if c.isDigit || c = '-' then number offset cs
      else if isNameStart c then
        let text := cs.takeWhile isNameContinue
        .ok (.name (String.ofList text), text.length)
      else if c = '\'' then .error ⟨.singleQuote, offset⟩
      else .error ⟨.unknownCharacter c, offset⟩
  | [] => .ok (.endOfText, 0)

/-- The tokens of a text that stands `offset` characters behind the start. -/
def tokensFrom (offset : Nat) (cs : List Char) : List Token :=
  match cs with
  | [] => [.lexeme .endOfText offset]
  | c :: r =>
    if isIgnored c then tokensFrom (offset + 1) r
    else if c = '#' then
      let size := (r.takeWhile (!Text.isRowEnd ·)).length
      tokensFrom (offset + size + 1) (r.drop size)
    else
      match lexeme offset (c :: r) with
      | .error e => [.broken e]
      | .ok (kind, size) => .lexeme kind offset :: tokensFrom (offset + size) (r.drop (size - 1))
termination_by cs.length
decreasing_by all_goals simp only [List.length_cons, List.length_drop]; omega

def tokens (text : String) : List Token := tokensFrom 0 text.toList

end ResolverKit.Sdl
