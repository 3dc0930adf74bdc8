import ResolverKit.Keyed
import ResolverKit.Number.Decimal
import ResolverKit.Schema.Basic

/-!
# Default values

What a value stands for once its spelling is read: integers of any size, floating-point numbers
rounded to 64 bits, names of enum values as strings.  An integer of more than 4300 digits is
beyond what is read and becomes not-a-number.
-/

namespace ResolverKit.Schema

open Sdl (Value)
open Number (decimalValue digitsValue maxDigits signed splitSign)

def Literal.ofInt (text : String) : Literal :=
  let (negative, digits) := splitSign text.toList
  if maxDigits < digits.length then .float .nan
  else .int (signed negative (digitsValue digits))

mutual

def Literal.ofValue : Value → Literal
  | .variable _ => .null
  | .int text => .ofInt text
  | .float text => .float (decimalValue text.toList)
  | .string lit => .string lit.value
  | .boolean b => .boolean b
  | .null => .null
  | .enum name => .string name
  | .list items => .list (Literal.ofValues items)
  | .object fields => .object (Keyed.ofPairs (Literal.ofEntries fields))

def Literal.ofValues : List Value → List Literal
  | [] => []
  | v :: r => Literal.ofValue v :: Literal.ofValues r

def Literal.ofEntries : List (String × Value) → List (String × Literal)
  | [] => []
  | (n, v) :: r => (n, Literal.ofValue v) :: Literal.ofEntries r

end

end ResolverKit.Schema
