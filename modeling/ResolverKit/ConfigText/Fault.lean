import ResolverKit.Text.CodePoint

/-!
# Faults of configuration texts

Why a configuration text has no value: it is not well-formed, or a scalar in it does not denote a
value of its type.
-/

namespace ResolverKit.ConfigText

open Text (CodeText)

/-- A scalar without a value of its type. -/
inductive BadScalar
  | integer (base : Nat) (text : CodeText)
  | longInteger (digits : Nat)
  | float (text : CodeText)
  | largeFactor
  | empty
  | boolean (text : CodeText)
  | timestamp
  | timestampMapping
  | calendar (reason : String)
  | codePoint (n : Nat)
  | endless
  deriving DecidableEq, Repr

/-- Why a text cannot be read. -/
inductive ReadError
  | malformed
  | scalar (bad : BadScalar)
  deriving DecidableEq, Repr

/-- The most code points a message shows of the quoted text of an integer. -/
def shownInteger : Nat := 200

/-- What is said of a scalar without a value. -/
def BadScalar.message : BadScalar → String
  | .integer base text =>
    "invalid literal for int() with base " ++ toString base ++ ": " ++
      String.ofList ((CodeText.quoted text).toList.take shownInteger)
  | .longInteger digits =>
    "Exceeds the limit (4300 digits) for integer string conversion: value has " ++
      toString digits ++ " digits; use sys.set_int_max_str_digits() to increase the limit"
  | .float text => "could not convert string to float: " ++ CodeText.quoted text
  | .largeFactor => "int too large to convert to float"
  | .empty => "string index out of range"
  | .boolean text => CodeText.quoted text
  | .timestamp => "'NoneType' object has no attribute 'groupdict'"
  | .timestampMapping => "expected string or bytes-like object, got 'list'"
  | .calendar reason => reason
  | .codePoint n =>
    if n < 0x80000000 then "chr() arg not in range(0x110000)"
    else "Python int too large to convert to C int"
  | .endless => "maximum recursion depth exceeded"

end ResolverKit.ConfigText
