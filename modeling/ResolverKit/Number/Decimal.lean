import ResolverKit.Number.Double

/-!
# Written numbers

The values of digits, signs and decimals as they are written in a text.
-/

namespace ResolverKit.Number

/-- A sign in front of a number, which says whether it is negative, and what follows it. -/
def splitSign : List Char → Bool × List Char
  | '-' :: r => (true, r)
  | '+' :: r => (false, r)
  | cs => (false, cs)

/-- A minus in front of a number, and what follows it. -/
def splitMinus : List Char → Bool × List Char
  | '-' :: r => (true, r)
  | cs => (false, cs)

def signed (negative : Bool) (n : Nat) : Int := if negative then -(n : Int) else n

/-- The natural number with these decimal digits. -/
def digitsValue (cs : List Char) : Nat := cs.foldl (fun n c => 10 * n + (c.toNat - 48)) 0

/-- The most decimal digits an integer may have to be read. -/
def maxDigits : Nat := 4300

/-- The value of a decimal with an optional sign, fraction and exponent. -/
def decimalValue (cs : List Char) : Double :=
  let (negative, cs) := splitSign cs
  let whole := cs.takeWhile Char.isDigit
  let rest := cs.dropWhile Char.isDigit
  let (fraction, rest) := match rest with
    | '.' :: r => (r.takeWhile Char.isDigit, r.dropWhile Char.isDigit)
    | _ => ([], rest)
  let exponent : Int := match rest with
    | _ :: r =>
      let (negative, digits) := splitSign r
      signed negative (digitsValue digits)
    | [] => 0
  .ofDecimal negative (digitsValue (whole ++ fraction)) (exponent - fraction.length)

end ResolverKit.Number
