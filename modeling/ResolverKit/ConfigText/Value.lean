import ResolverKit.ConfigText.Node
import ResolverKit.Keyed
import ResolverKit.Text.Quoted

/-!
# Values of configuration texts

Atoms are the values of scalars, and the only keys of mappings.  Numbers and truth values that are
equal are one key, and so are times that denote one moment.

Main statement: a key that is put into entries is among them with its value (`find?_putKey`).
-/

namespace ResolverKit.ConfigText

open Number (Double maxDigits)
open Text (CodeText)

/-! ## Atoms -/

/-- A value without parts.  Values that are no numbers come from the one written value, or each
from a node of its own. -/
inductive Atom
  | null
  | boolean (b : Bool)
  | int (i : Int)
  | float (x : Double)
  | nan (origin : Option NodeId)
  | timestamp (t : Timestamp)
  | binary (bytes : List UInt8)
  | text (t : CodeText)
  deriving DecidableEq, Repr

namespace Atom

def isNothing : Atom → Bool
  | .null => true
  | .boolean b => !b
  | .int i => i == 0
  | .float (.finite _ m _) => m == 0
  | .float _ => false
  | .nan _ => false
  | .timestamp _ => false
  | .binary bytes => bytes.isEmpty
  | .text t => t.isEmpty

/-- The integer that a number or truth value is equal to. -/
def integer? : Atom → Option Int
  | .boolean b => some (if b then 1 else 0)
  | .int i => some i
  | .float x => x.toInt?
  | _ => none

/-- Two atoms are the same key. -/
def sameKey (a b : Atom) : Bool :=
  match a.integer?, b.integer? with
  | some i, some j => i == j
  | none, none =>
    match a, b with
    | .timestamp s, .timestamp t => s.same t
    | a, b => a == b
  | _, _ => false

/-- One byte of a binary value as messages show it. -/
def byteText (quote : Char) (b : UInt8) : List Char :=
  let c := Char.ofNat b.toNat
  if b.toNat < 0x7f then Text.quotedChar quote c else '\\' :: 'x' :: Text.hexDigits 2 b.toNat

/-- An integer as messages show it; one that is too long is not shown. -/
def intText (i : Int) : String :=
  let digits := Nat.toDigits 10 i.natAbs
  if maxDigits < digits.length then "<unprintable int object>"
  else (if i < 0 then "-" else "") ++ String.ofList digits

def keyText : Atom → String
  | .null => "None"
  | .boolean b => if b then "1" else "0"
  | .int i => intText i
  | .float x => x.text
  | .nan _ => "nan"
  | .timestamp t => t.text
  | .binary bytes =>
    let quote := Text.quoteFor (bytes.map fun b => Char.ofNat b.toNat)
    String.ofList ('b' :: quote :: bytes.flatMap (byteText quote) ++ [quote])
  | .text t => t.replaced

end Atom

/-! ## Entries -/

/-- Gives a key a value: in its place, or at the end if the key is new. -/
def putKey {α : Type} (k : Atom) (v : α) : List (Atom × α) → List (Atom × α)
  | [] => [(k, v)]
  | (k', v') :: r => if k'.sameKey k then (k', v) :: r else (k', v') :: putKey k v r

theorem Atom.sameKey_self (a : Atom) : a.sameKey a = true := by
  unfold sameKey
  cases a.integer? with
  | some i => simp
  | none =>
    cases a with
    | timestamp t => cases h : moment? t <;> simp [Timestamp.same, h]
    | _ => simp

theorem find?_putKey {α : Type} (k : Atom) (v : α) (entries : List (Atom × α)) :
    ((putKey k v entries).find? fun (k', _) => k'.sameKey k).map (·.2) = some v := by
  induction entries with
  | nil => simp [putKey, Atom.sameKey_self]
  | cons e r ih =>
    by_cases h : e.1.sameKey k
    · simp [putKey, h]
    · simp [putKey, h, ih]

/-! ## Values -/

/-- A value: an atom, or a collection of values. -/
inductive Value
  | atom (a : Atom)
  | list (items : List Value)
  | set (members : List Atom)
  | mapping (entries : List (Atom × Value))
  deriving Repr

/-- The values that count as nothing. -/
def Value.isNothing : Value → Bool
  | .atom a => a.isNothing
  | .list items => items.isEmpty
  | .set members => members.isEmpty
  | .mapping entries => entries.isEmpty

/-! ## Binary values -/

/-- The value of a character of the base with sixty-four digits. -/
def digit64? (c : Char) : Option Nat :=
  if c.isUpper then some (c.toNat - 'A'.toNat)
  else if c.isLower then some (c.toNat - 'a'.toNat + 26)
  else if c.isDigit then some (c.toNat - '0'.toNat + 52)
  else if c == '+' then some 62
  else if c == '/' then some 63
  else none

/-- The bytes of digits in groups of four, as far as they are complete. -/
def bytes64 : List Nat → List UInt8
  | a :: b :: c :: d :: r =>
    UInt8.ofNat (4 * a + b / 16) :: UInt8.ofNat (16 * b + c / 4) :: UInt8.ofNat (64 * c + d) ::
      bytes64 r
  | [a, b, c] => [UInt8.ofNat (4 * a + b / 16), UInt8.ofNat (16 * b + c / 4)]
  | [a, b] => [UInt8.ofNat (4 * a + b / 16)]
  | _ => []

/-- The digits up to the padding; nothing if the last group is incomplete.  `taken` are the digits
so far, the last one first, and `pads` the padding since then.  Other characters count for
nothing. -/
def digits64? (taken : List Nat) (pads : Nat) : List Char → Option (List Nat)
  | [] => if taken.length % 4 = 0 then some taken.reverse else none
  | c :: r =>
    let size := taken.length % 4
    match digit64? c with
    | some d => digits64? (d :: taken) 0 r
    | none =>
      if c == '=' && 2 ≤ size then
        if 4 ≤ size + pads + 1 then some taken.reverse else digits64? taken (pads + 1) r
      else digits64? taken pads r

def readBinary (text : CodeText) : Except ReadError (List UInt8) :=
  match text.chars? with
  | none => .error .malformed
  | some cs =>
    if cs.all (·.toNat < 128) then
      match digits64? [] 0 cs with
      | some ds => .ok (bytes64 ds)
      | none => .error .malformed
    else .error .malformed

/-! ## Scalars -/

/-- The truth value of a word. -/
def readBoolean (text : CodeText) : Except BadScalar Bool :=
  let word := Text.small text
  match word.string?.bind fun s => Keyed.get? s booleanWords with
  | some b => .ok b
  | none => .error (.boolean word)

/-- The number at a place, or the value there that is no number. -/
def readNumber (id : NodeId) (text : CodeText) : Except BadScalar Atom :=
  (readFloat text).map fun
    | .nan => .nan (if namesNan text then none else some id)
    | x => .float x

def readScalar (type : NodeType) (id : NodeId) (text : CodeText) : Except ReadError Atom :=
  match type with
  | .null => .ok .null
  | .boolean => ((readBoolean text).map Atom.boolean).mapError .scalar
  | .integer => ((readInteger text).map Atom.int).mapError .scalar
  | .float => (readNumber id text).mapError .scalar
  | .timestamp => ((readTimestamp text).map Atom.timestamp).mapError .scalar
  | .binary => (readBinary text).map Atom.binary
  | .text => .ok (.text text)
  | _ => .error .malformed

end ResolverKit.ConfigText
