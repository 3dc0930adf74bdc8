/-!
# Runs of letters with another case

A case table lists runs of letters whose other case lies at a constant distance.
-/

namespace ResolverKit.Text

/-- A run of characters `first, first + stride, …, last` whose other case lies `shift` away. -/
structure CaseRun where
  first : Nat
  last : Nat
  stride : Nat
  shift : Int

/-- The run belongs to the character with this code point. -/
def CaseRun.covers (run : CaseRun) (n : Nat) : Bool :=
  run.first ≤ n && n ≤ run.last && (n - run.first) % run.stride == 0

/-- The other case of a character after a table; a character that is not in it stays. -/
def recase (runs : List CaseRun) (c : Char) : Char :=
  match runs.find? (·.covers c.toNat) with
  | some run => Char.ofNat (c.toNat + run.shift).toNat
  | none => c

end ResolverKit.Text
