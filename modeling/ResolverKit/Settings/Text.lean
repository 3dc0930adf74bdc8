import ResolverKit.Settings.Problem
import ResolverKit.Number.Decimal

/-!
# Texts, integers and truth values of settings

What is taken for a text, an integer or a truth value, and what is said of a value that is not.
Texts that show a number or a truth value are taken for it.
-/

namespace ResolverKit.Settings

open ConfigText (Value)
open Number (digitsValue maxDigits signed)
open Text (CodeText)

/-! ## Texts -/

/-- A text, which may hold surrogates. -/
def readText (v : Value) : Checked CodeText :=
  match v with
  | .atom (.text t) => .ok t
  | .atom (.binary bytes) =>
    match String.fromUTF8? ⟨bytes.toArray⟩ with
    | some s => .ok (.ofString s)
    | none => problem unreadable
  | _ => problem "Input should be a valid string"

/-- A text of at least one character. -/
def readSomeText (v : Value) : Checked String := do
  match (← readText v).string? with
  | none => problem unreadable
  | some s =>
    if s.isEmpty then problem "String should have at least 1 character"
    else return s

/-- What a value is read as that may show a number or truth value: by `ofText`, if it is a text or
the bytes of one.  `wrong` is said of other values, and `unclear` of bytes that are no text. -/
def readShown {α : Type} (ofText : String → Checked α) (wrong unclear : String) (v : Value) :
    Checked α :=
  match v with
  | .atom (.text t) =>
    match t.string? with
    | some s => ofText s
    | none => problem unreadable
  | .atom (.binary bytes) =>
    match String.fromUTF8? ⟨bytes.toArray⟩ with
    | some s => ofText s
    | none => problem unclear
  | _ => problem wrong

/-! ## Integers -/

/-- White space around a written integer. -/
def isPadding (c : Char) : Bool := Text.isBlank c && !(28 ≤ c.toNat && c.toNat ≤ 31)

/-- A written integer without white space at its ends. -/
def trimPadding (cs : List Char) : List Char :=
  ((cs.dropWhile isPadding).reverse.dropWhile isPadding).reverse

/-- A decimal integer as it is: an optional minus, then a zero alone or digits that start with
another. -/
def isBareInteger (cs : List Char) : Bool :=
  match cs with
  | ['0'] => true
  | ['-', '0'] => true
  | '-' :: c :: r => c.isDigit && c != '0' && r.all Char.isDigit
  | c :: r => c.isDigit && c != '0' && r.all Char.isDigit
  | [] => false

/-- What follows the zeros and underscores behind a zero: the rest from another digit or a minus on,
or from the last zero on if a point follows it or nothing does. -/
def behindZeros (last : Char) : List Char → Option (List Char)
  | [] => some [last]
  | c :: r =>
    if c == '0' || c == '_' then behindZeros c r
    else if c.isDigit || c == '-' then some (c :: r)
    else if c == '.' then some (last :: c :: r)
    else none

/-- The number without zeros in front. -/
def dropLeadingZeros : List Char → Option (List Char)
  | '0' :: r => behindZeros '0' r
  | c :: r => if c.isDigit || c == '-' then some (c :: r) else none
  | [] => none

/-- The number without a point that zeros and nothing else follow. -/
def dropZeroFraction (cs : List Char) : List Char :=
  let whole := cs.takeWhile (· != '.')
  match cs.drop whole.length with
  | '.' :: z :: r => if (z :: r).all (· == '0') then whole else cs
  | _ => cs

/-- Two underscores stand side by side. -/
def hasDoubleUnderscore : List Char → Bool
  | '_' :: '_' :: _ => true
  | _ :: r => hasDoubleUnderscore r
  | [] => false

/-- The number without underscores, if each stands between two other characters. -/
def dropUnderscores (cs : List Char) : List Char :=
  if cs.head? = some '_' || cs.getLast? = some '_' || hasDoubleUnderscore cs then cs
  else cs.filter (· != '_')

/-- The written number as a bare integer, if it has that form: without zeros in front, a fraction of
zeros and underscores between digits.  A minus in front stays. -/
def bareInteger? (cs : List Char) : Option (List Char) :=
  let bare? (unsigned : List Char) := (dropLeadingZeros unsigned).map fun r =>
    dropUnderscores (dropZeroFraction r)
  let bare? := match trimPadding cs with
    | '-' :: r => (bare? r).map ('-' :: ·)
    | '+' :: '-' :: _ => none
    | '+' :: r => bare? r
    | r => bare? r
  bare?.filter isBareInteger

/-- What is said of a text that shows no integer. -/
def notInteger : String := "Input should be a valid integer, unable to parse string as an integer"

/-- What is said of a number that is not finite. -/
def notFinite : String := "Input should be a finite number"

/-- What is said of a number that is too long. -/
def tooLong : String := "Unable to parse input string as an integer, exceeded maximum size"

/-- The digits at the front of a number whose first digit is not zero. -/
def leadingDigits (cs : List Char) : List Char :=
  match (Number.splitMinus cs).2 with
  | '0' :: _ => []
  | unsigned => unsigned.takeWhile Char.isDigit

def bareValue (cs : List Char) : Int :=
  let (negative, digits) := Number.splitMinus cs
  signed negative (digitsValue digits)

/-- The integer that a text shows.  A text that starts with too many digits is refused at once;
otherwise a bare integer is taken as it is, and another form of a number if its bare form is not too
long. -/
def integerOfText (s : String) : Checked Int :=
  let cs := s.toList
  if maxDigits < (leadingDigits cs).length then problem tooLong
  else if isBareInteger cs then .ok (bareValue cs)
  else
    match (bareInteger? cs).filter fun bare => (leadingDigits bare).length ≤ maxDigits with
    | some bare => .ok (bareValue bare)
    | none => problem notInteger

/-- The integer that a floating-point number is equal to, if it fits in 64 bits. -/
def integerOfFloat (x : Number.Double) : Checked Int :=
  match x with
  | .finite _ _ _ =>
    match x.toInt? with
    | some i => if i.natAbs < 1 <<< 63 then .ok i else problem tooLong
    | none => problem "Input should be a valid integer, got a number with a fractional part"
  | _ => problem notFinite

def readInteger (v : Value) : Checked Int :=
  match v with
  | .atom (.boolean b) => .ok (if b then 1 else 0)
  | .atom (.int i) => .ok i
  | .atom (.float x) => integerOfFloat x
  | .atom (.nan _) => problem notFinite
  | v => readShown integerOfText "Input should be a valid integer" notInteger v

def readNatural (v : Value) : Checked Nat := do
  let i ← readInteger v
  if i < 0 then problem "Input should be greater than or equal to 0"
  else return i.toNat

/-! ## Truth values -/

/-- The words for truth values, in lower case. -/
def falseWords : List String := ["0", "off", "f", "false", "n", "no"]
def trueWords : List String := ["1", "on", "t", "true", "y", "yes"]

/-- What is said of a text or number that shows no truth value. -/
def unclear : String := "Input should be a valid boolean, unable to interpret input"

/-- What is said of a value that can show none. -/
def notBoolean : String := "Input should be a valid boolean"

/-- The truth value that an integer stands for. -/
def booleanOfInteger (i : Int) : Checked Bool :=
  if i = 0 then .ok false
  else if i = 1 then .ok true
  else problem unclear

/-- The truth value that a text shows. -/
def booleanOfText (s : String) : Checked Bool :=
  let word := String.ofList (s.toList.map Char.toLower)
  if falseWords.contains word then .ok false
  else if trueWords.contains word then .ok true
  else problem unclear

def readBoolean (v : Value) : Checked Bool :=
  match v with
  | .atom (.boolean b) => .ok b
  | .atom (.int i) =>
    if Int.bmod i (1 <<< 64) ≠ i then problem notBoolean else booleanOfInteger i
  | .atom (.float x) =>
    match integerOfFloat x with
    | .ok i => booleanOfInteger i
    | .error _ => problem notBoolean
  | v => readShown booleanOfText notBoolean unclear v

end ResolverKit.Settings
