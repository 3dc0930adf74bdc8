/-!
# Binary floating-point numbers of 64 bits

A finite number is a sign, a significand below `2 ^ 53` and a power of two.  `ofRatio` and
`ofDecimal` round an exact value to the nearest number, a tie to the even significand; a value
beyond the largest number becomes infinite.  `bits` is the usual encoding in 64 bits, and
`shortest` gives the least number of decimal digits that read back as the number.
-/

namespace ResolverKit.Number

/-- The numbers.  A finite number is `± significand · 2 ^ exponent`. -/
inductive Double
  | nan
  | infinite (negative : Bool)
  | finite (negative : Bool) (significand : Nat) (exponent : Int)
  deriving DecidableEq, Repr

/-! ## Rounding -/

/-- The exponent of the numbers next to zero, and the largest exponent. -/
def minExponent : Int := -1074
def maxExponent : Int := 971

/-- The first significand that is too large, `2 ^ 53`. -/
def significandLimit : Nat := 1 <<< 53

def tenTo (n : Nat) : Nat := Nat.pow 10 n

/-- The quotient rounded to the nearest natural number, a tie to the even one. -/
def roundDiv (num den : Nat) : Nat :=
  let q := num / den
  let r := num % den
  if den < 2 * r then q + 1
  else if 2 * r = den then q + q % 2
  else q

/-- The quotient `num / den` scaled by `2 ^ (-e)` and rounded. -/
def scaledRound (num den : Nat) (e : Int) : Nat :=
  if 0 ≤ e then roundDiv num (den <<< e.toNat) else roundDiv (num <<< (-e).toNat) den

/-- The number nearest to `± num / den`. -/
def Double.ofRatio (negative : Bool) (num den : Nat) : Double :=
  if num = 0 then .finite negative 0 minExponent
  else
    let guess : Int := (Nat.log2 num : Int) - Nat.log2 den - 53
    let e := max guess minExponent
    -- the significand may need one bit less or one bit more than the guess leaves room for
    let e := if scaledRound num den e < significandLimit then e else e + 1
    let m := scaledRound num den e
    let (m, e) := if m < significandLimit then (m, e) else (m / 2, e + 1)
    if maxExponent < e then .infinite negative else .finite negative m e

/-- The number nearest to `± digits · 10 ^ scale`. -/
def Double.ofDecimal (negative : Bool) (digits : Nat) (scale : Int) : Double :=
  if digits = 0 then .finite negative 0 minExponent
  else
    let size : Int := (Nat.toDigits 10 digits).length + scale
    if 400 < size then .infinite negative
    else if size < -400 then .finite negative 0 minExponent
    else if 0 ≤ scale then .ofRatio negative (digits * tenTo scale.toNat) 1
    else .ofRatio negative digits (tenTo (-scale).toNat)

/-! ## Encoding -/

/-- The encoding of a number as a natural number below `2 ^ 64`. -/
def Double.bits : Double → Nat
  | .nan => 0x7ff8000000000000
  | .infinite negative => (if negative then 1 <<< 63 else 0) + 0x7ff0000000000000
  | .finite negative m e =>
    let sign := if negative then 1 <<< 63 else 0
    let hidden := 1 <<< 52
    if m < hidden then sign + m
    else sign + ((e - minExponent + 1).toNat * hidden + (m - hidden))

/-! ## Integral values -/

/-- The integer that a number is equal to, if there is one. -/
def Double.toInt? : Double → Option Int
  | .finite negative m e =>
    let magnitude? :=
      if 0 ≤ e then some (m <<< e.toNat)
      else if m % (1 <<< (-e).toNat) = 0 then some (m >>> (-e).toNat)
      else none
    magnitude?.map fun n => if negative then -(n : Int) else n
  | _ => none

/-! ## Sums and products -/

/-- The number as a fraction of the power of two `2 ^ minExponent`, if it is finite. -/
def Double.units? : Double → Option Int
  | .finite negative m e =>
    let n := m <<< (e - minExponent).toNat
    some (if negative then -(n : Int) else n)
  | _ => none

/-- The number nearest to `n · 2 ^ minExponent`. -/
def Double.ofUnits (n : Int) : Double :=
  .ofRatio (n < 0) n.natAbs (1 <<< (-minExponent).toNat)

/-- The nearest number to a product of finite numbers.  An infinity stays one, with the sign of the
product, unless it meets zero. -/
def Double.mul : Double → Double → Double
  | .nan, _ => .nan
  | _, .nan => .nan
  | .infinite s, .infinite t => .infinite (s != t)
  | .infinite s, .finite t n _ => if n = 0 then .nan else .infinite (s != t)
  | .finite s m _, .infinite t => if m = 0 then .nan else .infinite (s != t)
  | .finite s m e, .finite t n f =>
    if 0 ≤ e + f then .ofRatio (s != t) ((m * n) <<< (e + f).toNat) 1
    else .ofRatio (s != t) (m * n) (1 <<< (-(e + f)).toNat)

/-- The nearest number to a sum of finite numbers; else the first that is not finite, unless
they are infinities of two signs. -/
def Double.add (x y : Double) : Double :=
  match x.units?, y.units? with
  | some u, some v => .ofUnits (u + v)
  | some _, none => y
  | none, some _ => x
  | none, none => if x = y then x else .nan

/-- The number with the other sign. -/
def Double.negate : Double → Double
  | .nan => .nan
  | .infinite negative => .infinite !negative
  | .finite negative m e => .finite (!negative) m e

/-! ## Shortest decimals -/

/-- The two grid points `k · 10 ^ scale` next to the number, from the one below. -/
def neighbours (m : Nat) (e scale : Int) : List Nat :=
  let num := (m <<< e.toNat) * tenTo (-scale).toNat
  let den := tenTo scale.toNat <<< (-e).toNat
  [num / den, num / den + 1]

/-- The distance between `k · 10 ^ scale` and `m · 2 ^ e`, times a constant of `e` and `scale`. -/
def distance (m : Nat) (e : Int) (k : Nat) (scale : Int) : Nat :=
  let a := (k * tenTo scale.toNat) <<< (-e).toNat
  let b := (m <<< e.toNat) * tenTo (-scale).toNat
  if a ≤ b then b - a else a - b

/-- The grid point of this scale that reads back as the number: the nearer one of two, and the
even one of two that are equally near. -/
def gridPoint? (m : Nat) (e scale : Int) : Option Nat :=
  match (neighbours m e scale).filter
      fun k => Double.ofDecimal false k scale = .finite false m e with
  | [] => none
  | [k] => some k
  | k :: k' :: _ =>
    let d := distance m e k scale
    let d' := distance m e k' scale
    if d < d' || d = d' && k % 2 = 0 then some k else some k'

/-- The decimal `digits · 10 ^ scale` with the fewest digits that reads back as the positive
number `m · 2 ^ e`; of those the nearest. -/
def shortest (m : Nat) (e : Int) : Nat × Int :=
  let size : Int := -- the number of digits in front of the point, or one more
    ((Nat.log2 m : Int) + e) * 30103 / 100000 + 1
  let scales := (List.range 19).map fun (k : Nat) => size - (k : Int)
  match scales.findSome? fun scale => (gridPoint? m e scale).bind fun k =>
      if k = 0 then none else some (k, scale) with
  | some found => found
  | none => (m <<< e.toNat, 0)

/-- The digits of a number without the zeros at the end, and how many zeros there were. -/
def dropZeros (n : Nat) : Nat × Nat :=
  let digits := (Nat.toDigits 10 n).reverse
  let zeros := (digits.takeWhile (· == '0')).length
  (n / tenTo zeros, zeros)

/-- The text of a number: its shortest decimal, positional between `10 ^ -4` and `10 ^ 16` and
with an exponent of at least two digits elsewhere; an integral value keeps a zero behind the
point. -/
def Double.text : Double → String
  | .nan => "nan"
  | .infinite negative => (if negative then "-" else "") ++ "inf"
  | .finite negative m e =>
    let sign := if negative then "-" else ""
    if m = 0 then sign ++ "0.0"
    else
      let (k, scale) := shortest m e
      let (k, zeros) := dropZeros k
      let scale := scale + zeros
      let digits := Nat.toDigits 10 k
      let count := digits.length
      let point : Int := count + scale
      if -4 < point && point ≤ 16 then
        if point ≤ 0 then
          sign ++ "0." ++ String.ofList (List.replicate (-point).toNat '0' ++ digits)
        else if 0 ≤ scale then
          sign ++ String.ofList (digits ++ List.replicate scale.toNat '0') ++ ".0"
        else
          sign ++ String.ofList (digits.take point.toNat) ++ "." ++
            String.ofList (digits.drop point.toNat)
      else
        let exponent := point - 1
        let mantissa := match digits with
          | [d] => [d]
          | d :: r => d :: '.' :: r
          | [] => []
        let size := Nat.toDigits 10 exponent.natAbs
        sign ++ String.ofList mantissa ++ "e" ++ (if exponent < 0 then "-" else "+") ++
          String.ofList (List.replicate (2 - size.length) '0' ++ size)

end ResolverKit.Number
