/-!
# Tokens of a schema text

What the lexer makes of a schema text, and the reasons for which a text is refused.  The text
`Reason.message` gives for a reason is the first line of the error a reader of the schema sees.
-/

namespace ResolverKit.Sdl

inductive Punctuator
  | bang | dollar | amp | parenL | parenR | spread | colon | equals | at
  | bracketL | bracketR | braceL | pipe | braceR
  deriving DecidableEq, Repr

def Punctuator.text : Punctuator → String
  | .bang => "!"
  | .dollar => "$"
  | .amp => "&"
  | .parenL => "("
  | .parenR => ")"
  | .spread => "..."
  | .colon => ":"
  | .equals => "="
  | .at => "@"
  | .bracketL => "["
  | .bracketR => "]"
  | .braceL => "\x7b"
  | .pipe => "|"
  | .braceR => "\x7d"

def Punctuator.ofChar? : Char → Option Punctuator
  | '!' => some .bang
  | '$' => some .dollar
  | '&' => some .amp
  | '(' => some .parenL
  | ')' => some .parenR
  | ':' => some .colon
  | '=' => some .equals
  | '@' => some .at
  | '[' => some .bracketL
  | ']' => some .bracketR
  | '{' => some .braceL
  | '|' => some .pipe
  | '}' => some .braceR
  | _ => none

/-- A string as it stands in a schema: its value, and whether it was written as a block. -/
structure StringLit where
  value : String
  block : Bool
  deriving DecidableEq, Repr

/-- The tokens without their places.  Numbers keep their spelling. -/
inductive Lexeme
  | punct (p : Punctuator)
  | name (text : String)
  | int (text : String)
  | float (text : String)
  | string (lit : StringLit)
  | endOfText
  deriving DecidableEq, Repr

/-- How a lexeme is named in a message: its class, and its value if it has one. -/
def Lexeme.describe : Lexeme → String
  | .punct p => "'" ++ p.text ++ "'"
  | .name t => "Name '" ++ t ++ "'"
  | .int t => "Int '" ++ t ++ "'"
  | .float t => "Float '" ++ t ++ "'"
  | .string l => (if l.block then "BlockString '" else "String '") ++ l.value ++ "'"
  | .endOfText => "<EOF>"

def Lexeme.value? : Lexeme → Option String
  | .punct _ => none
  | .name t => some t
  | .int t => some t
  | .float t => some t
  | .string l => some l.value
  | .endOfText => none

/-- What the grammar asks for at a place. -/
inductive Wanted
  | punct (p : Punctuator)
  | name
  | keyword (text : String)
  deriving DecidableEq, Repr

def Wanted.describe : Wanted → String
  | .punct p => "'" ++ p.text ++ "'"
  | .name => "Name"
  | .keyword t => "'" ++ t ++ "'"

/-- Why a schema text is refused. -/
inductive Reason
  | unknownCharacter (c : Char)
  | singleQuote
  | twoDots
  | leadingDot (digits : String)
  | digitExpected (found : Option Char)
  | digitAfterZero (found : Char)
  | unterminatedString
  | badEscape (text : String)
  | badUnicodeEscape (text : String)
  | expected (wanted : Wanted) (found : Lexeme)
  | unexpected (found : Lexeme)
  | variableInConstant (name : String)
  | reservedEnumValue (found : Lexeme)
  | strayDescription
  | shorthandDescription
  | tooDeep
  deriving DecidableEq, Repr

/-- The upper-case hexadecimal digits of a code point, at least four of them. -/
def codePointDigits (n : Nat) : String :=
  let digits := (Nat.toDigits 16 n).map Char.toUpper
  String.ofList (List.replicate (4 - digits.length) '0' ++ digits)

/-- How a character is named in a message: printable ASCII in quotes, all else by its number. -/
def describeChar : Option Char → String
  | none => "<EOF>"
  | some c =>
    if 0x20 ≤ c.toNat && c.toNat ≤ 0x7e then "'" ++ c.toString ++ "'"
    else "U+" ++ codePointDigits c.toNat

def Reason.message : Reason → String
  | .unknownCharacter c => "Unexpected character: " ++ describeChar (some c) ++ "."
  | .singleQuote =>
    "Unexpected single quote character ('), did you mean to use a double quote (\")?"
  | .twoDots => "Unexpected '..', did you mean '...'?"
  | .leadingDot digits =>
    "Invalid number, expected digit before '.', did you mean '0." ++ digits ++ "'?"
  | .digitExpected found =>
    "Invalid number, expected digit but got: " ++ describeChar found ++ "."
  | .digitAfterZero found =>
    "Invalid number, unexpected digit after 0: " ++ describeChar (some found) ++ "."
  | .unterminatedString => "Unterminated string."
  | .badEscape text => "Invalid character escape sequence: '" ++ text ++ "'."
  | .badUnicodeEscape text => "Invalid Unicode escape sequence: '" ++ text ++ "'."
  | .expected wanted found =>
    "Expected " ++ wanted.describe ++ ", found " ++ found.describe ++ "."
  | .unexpected found => "Unexpected " ++ found.describe ++ "."
  | .variableInConstant name => "Unexpected variable '$" ++ name ++ "' in constant value."
  | .reservedEnumValue found =>
    found.describe ++ " is reserved and cannot be used for an enum value."
  | .strayDescription =>
    "Unexpected description, only GraphQL definitions support descriptions."
  | .shorthandDescription =>
    "Unexpected description, descriptions are not supported on shorthand queries."
  | .tooDeep => "Document is nested too deeply. Parsing aborted."

/-- A refused text: the reason, and the number of characters before the place it points at. -/
structure SyntaxError where
  reason : Reason
  offset : Nat
  deriving DecidableEq, Repr

/-- A lexeme and the number of characters before it; or the place where the text has none. -/
inductive Token
  | lexeme (kind : Lexeme) (offset : Nat)
  | broken (error : SyntaxError)
  deriving DecidableEq, Repr

end ResolverKit.Sdl
