import ResolverKit.ConfigText.Fault
import ResolverKit.Number.Decimal
import ResolverKit.Text.Blank
import ResolverKit.Text.Digit
import ResolverKit.Text.Small
import ResolverKit.Text.Split

/-!
# Numbers of configuration texts

Which plain texts are numbers, and what a number denotes: integers in decimal, binary, octal and
hexadecimal, floating-point numbers, and both in groups of sixty with colons between them.
Underscores in a number count for nothing.
-/

namespace ResolverKit.ConfigText

open Number (Double decimalValue digitsValue maxDigits signed splitSign)
open Text (CodePoint CodeText)

/-! ## Which texts are numbers -/

/-- A digit or an underscore. -/
def isSpacedDigit (c : Char) : Bool := c.isDigit || c == '_'

/-- A digit of the numbers up to this base, or an underscore. -/
def isDigitBelow (base : Nat) (c : Char) : Bool := c == '_' || (Text.hexValue? c).any (· < base)

/-- There is at least one character, and all have the property. -/
def isRunOf (p : Char → Bool) (cs : List Char) : Bool := !cs.isEmpty && cs.all p

/-- A number below sixty in one or two digits. -/
def isSixtieth : List Char → Bool
  | [a] => a.isDigit
  | [a, b] => '0' ≤ a && a ≤ '5' && b.isDigit
  | _ => false

/-- A decimal number without a sign that does not start with a zero. -/
def isDecimal : List Char → Bool
  | c :: r => c.isDigit && c != '0' && r.all isSpacedDigit
  | [] => false

/-- The text of an integer without its sign. -/
def isUnsignedInteger (cs : List Char) : Bool :=
  match cs with
  | '0' :: 'b' :: r => isRunOf (isDigitBelow 2) r
  | '0' :: 'x' :: r => isRunOf (isDigitBelow 16) r
  | ['0'] => true
  | '0' :: r => isRunOf (isDigitBelow 8) r
  | _ =>
    match Text.pieces ':' cs with
    | first :: more => isDecimal first && more.all isSixtieth
    | [] => false

def isInteger (cs : List Char) : Bool := isUnsignedInteger (splitSign cs).2

/-- An exponent with its mark and sign, or nothing. -/
def isExponent : List Char → Bool
  | [] => true
  | e :: s :: r => (e == 'e' || e == 'E') && (s == '+' || s == '-') && isRunOf Char.isDigit r
  | _ => false

/-- What follows the point of a floating-point number. -/
def isFraction (cs : List Char) : Bool := isExponent (cs.dropWhile isSpacedDigit)

def isSpacedRun : List Char → Bool
  | c :: r => c.isDigit && r.all isSpacedDigit
  | [] => false

/-- The text of a floating-point number. -/
def isFloat (cs : List Char) : Bool :=
  let unsigned := (splitSign cs).2
  let whole := unsigned.takeWhile (· != '.')
  match unsigned.drop whole.length with
  | '.' :: r =>
    if whole.isEmpty then
      ["inf", "Inf", "INF"].any (·.toList == r) ||
        (cs.head? == some '.' &&
          (["nan", "NaN", "NAN"].any (·.toList == r) || (r.head?.any Char.isDigit && isFraction r)))
    else
      match Text.pieces ':' whole with
      | [digits] => isSpacedRun digits && isFraction r
      | first :: more => isSpacedRun first && more.all isSixtieth && r.all isSpacedDigit
      | [] => false
  | _ => false

/-! ## Plain form -/

/-- A code point of a number in plain form: digits of other scripts become the usual ones, white
space behind the first 128 characters becomes a space, and all else a question mark. -/
def plainChar : CodePoint → Char
  | .surrogate _ => '?'
  | .char c =>
    if c.toNat < 128 then c
    else if Text.isBlank c then ' '
    else
      match Text.digitValue? c with
      | some d => Nat.digitChar d
      | none => '?'

/-- White space around a number in plain form. -/
def isMargin (c : Char) : Bool := c == ' ' || (9 ≤ c.toNat && c.toNat ≤ 13)

/-- A number in plain form without white space at its front. -/
def plainForm (t : CodeText) : List Char := (t.map plainChar).dropWhile isMargin

/-- A sign in front of a number, which says whether it is negative, and what follows it. -/
def splitSignCode (t : CodeText) : Bool × CodeText :=
  match t with
  | .char '-' :: r => (true, r)
  | .char '+' :: r => (false, r)
  | _ => (false, t)

def dropSpacers (t : CodeText) : CodeText := t.filter fun p => !p.is '_'

def groups : CodeText → List CodeText
  | [] => [[]]
  | p :: r =>
    if p.is ':' then [] :: groups r
    else
      match groups r with
      | [] => [[p]]
      | g :: gs => (p :: g) :: gs

/-! ## Integers -/

/-- The text without the mark of its base in front. -/
def dropBaseMark (base : Nat) : List Char → List Char
  | '0' :: m :: r =>
    let mark := m.toLower
    if (base == 2 && mark == 'b') || (base == 8 && mark == 'o') || (base == 16 && mark == 'x') then
      r
    else '0' :: m :: r
  | cs => cs

def valueIn (base : Nat) (cs : List Char) : Nat :=
  cs.foldl (fun n c => base * n + (Text.hexValue? c).getD 0) 0

/-- The integer that a text denotes in a base: a sign, digits and nothing else but white space.  The
number of digits is told before what follows them. -/
def integerIn (base : Nat) (t : CodeText) : Except BadScalar Int :=
  let (negative, unsigned) := splitSign (plainForm t)
  let unsigned := dropBaseMark base unsigned
  let isDigit (c : Char) := (Text.hexValue? c).any (· < base)
  let digits := unsigned.takeWhile isDigit
  if base == 10 && maxDigits < digits.length then .error (.longInteger digits.length)
  else if digits.isEmpty || !(unsigned.dropWhile isDigit).all isMargin then .error (.integer base t)
  else .ok (signed negative (valueIn base digits))

/-- The integer in groups of sixty. -/
def integerBySixty (gs : List CodeText) : Except BadScalar Int :=
  gs.foldlM (fun n g => return 60 * n + (← integerIn 10 g)) 0

def readInteger (text : CodeText) : Except BadScalar Int := do
  let t := dropSpacers text
  if t.isEmpty then throw .empty
  let (negative, unsigned) := splitSignCode t
  let n ←
    match unsigned with
    | [] => throw .empty
    | .char '0' :: .char 'b' :: r => integerIn 2 r
    | .char '0' :: .char 'x' :: r => integerIn 16 r
    | .char '0' :: _ => integerIn 8 unsigned
    | _ =>
      if unsigned.any (·.is ':') then integerBySixty (groups unsigned)
      else integerIn 10 unsigned
  return if negative then -n else n

/-! ## Floating-point numbers -/

/-- A decimal without a sign: digits with perhaps a point among them, and perhaps an exponent. -/
def isPlainDecimal (cs : List Char) : Bool :=
  let whole := cs.takeWhile Char.isDigit
  let rest := cs.drop whole.length
  let (fraction, rest) := match rest with
    | '.' :: r => (r.takeWhile Char.isDigit, r.dropWhile Char.isDigit)
    | _ => ([], rest)
  let exponent := match rest with
    | [] => true
    | e :: r => e == 'e' && isRunOf Char.isDigit (splitSign r).2
  !(whole.isEmpty && fraction.isEmpty) && exponent

/-- The floating-point number that a lower-case text denotes. -/
def floatOf (t : CodeText) : Except BadScalar Double :=
  let trimmed := ((plainForm t).reverse.dropWhile isMargin).reverse
  let (negative, unsigned) := splitSign trimmed
  if unsigned == "inf".toList || unsigned == "infinity".toList then .ok (.infinite negative)
  else if unsigned == "nan".toList then .ok .nan
  else if isPlainDecimal unsigned then .ok (decimalValue trimmed)
  else .error (.float t)

/-- The sum of `total` and the groups of sixty, the last of which comes first and counts `base`
times.  A factor beyond all numbers is refused. -/
def sumBySixty (total : Double) (base : Nat) : List Double → Except BadScalar Double
  | [] => .ok total
  | x :: r =>
    match Double.ofRatio false base 1 with
    | .infinite _ => .error .largeFactor
    | factor => sumBySixty (total.add (x.mul factor)) (60 * base) r

/-- The floating-point number in groups of sixty. -/
def floatBySixty (gs : List CodeText) : Except BadScalar Double := do
  sumBySixty (.ofUnits 0) 1 (← gs.mapM floatOf).reverse

/-- The floating-point number that a text denotes. -/
def readFloat (text : CodeText) : Except BadScalar Double := do
  let t := Text.small (dropSpacers text)
  if t.isEmpty then throw .empty
  let (negative, unsigned) := splitSignCode t
  let x ←
    if unsigned == .ofString ".inf" then pure (.infinite false)
    else if unsigned == .ofString ".nan" then pure .nan
    else if unsigned.any (·.is ':') then floatBySixty (groups unsigned)
    else floatOf unsigned
  return if negative then x.negate else x

/-- The text names the one value that is no number, and does not come to it by reckoning. -/
def namesNan (text : CodeText) : Bool :=
  (splitSignCode (Text.small (dropSpacers text))).2 == .ofString ".nan"

end ResolverKit.ConfigText
