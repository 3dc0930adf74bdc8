import ResolverKit.ConfigText.Scalar
import ResolverKit.Number.Decimal

/-!
# Names and tags of configuration texts

Anchors and aliases name a node, tags name its type, and directives stand in front of a document.
-/

namespace ResolverKit.ConfigText

/-! ## Names -/

/-- The characters of the names of anchors, directives and tag handles. -/
def isNameChar (c : Char) : Bool := c.isAlphanum || c == '-' || c == '_'

/-- The name from here on, which is not empty, and the place behind it. -/
def nameHere (c : Cursor) : Except ReadError (String × Cursor) :=
  match c.run isNameChar with
  | [] => .error .malformed
  | name => .ok (String.ofList name, c.skip name.length)

/-- The characters that may follow the name of an anchor or alias. -/
def endsAnchor : List Char → Bool
  | [] => true
  | c :: _ => isBreak c || isGap c || "?:,]\x7d%@\x60".toList.contains c

/-- The name of an anchor or alias whose mark is in front of this place. -/
def anchorName (c : Cursor) : Except ReadError (String × Cursor) := do
  let (name, c') ← nameHere c
  if endsAnchor c'.rest then return (name, c')
  else throw .malformed

/-! ## Tags -/

/-- The characters of the name of a type. -/
def isTagChar (c : Char) : Bool := c.isAlphanum || "-;/?:@&=+$,_.!~*'()[]".toList.contains c

/-- The bytes that are written with a percent sign and two digits each. -/
def percentBytes : List Char → Except ReadError (List UInt8)
  | '%' :: a :: b :: r => do
    match Text.hexNumber? [a, b] with
    | some n => return UInt8.ofNat n :: (← percentBytes r)
    | none => throw .malformed
  | '%' :: _ => .error .malformed
  | _ => .ok []

/-- The name of a type from the front of the text, and how many characters it takes. -/
def tagChars : List Char → Except ReadError (List Char × Nat)
  | [] => .ok ([], 0)
  | c :: r =>
    if c == '%' then
      match percentBytes (c :: r) with
      | .error e => .error e
      | .ok [] => .error .malformed
      | .ok (b :: bytes) =>
        match String.fromUTF8? ⟨(b :: bytes).toArray⟩ with
        | none => .error .malformed
        | some text => do
          let size := 3 * (bytes.length + 1)
          let (more, n) ← tagChars ((c :: r).drop size)
          return (text.toList ++ more, size + n)
    else if isTagChar c then do
      let (more, n) ← tagChars r
      return (c :: more, n + 1)
    else .ok ([], 0)
termination_by cs => cs.length

/-- The name of a type from here on, which is not empty. -/
def tagName (c : Cursor) : Except ReadError (String × Cursor) := do
  match ← tagChars c.rest with
  | ([], _) => throw .malformed
  | (name, size) => return (String.ofList name, c.skip size)

/-- The handle of a tag from here on: an exclamation mark, or two of them with a name between. -/
def tagHandle (c : Cursor) : Except ReadError (String × Cursor) :=
  match c.rest with
  | '!' :: r =>
    if r.head? = some ' ' then .ok ("!", c.next)
    else
      let name := r.takeWhile isNameChar
      if (r.drop name.length).head? = some '!' then
        .ok (String.ofList ('!' :: name ++ ['!']), c.skip (name.length + 2))
      else .error .malformed
  | _ => .error .malformed

/-- The handle, if any, and the rest of a tag whose first exclamation mark is here. -/
def tagParts (c : Cursor) : Except ReadError (Option String × String × Cursor) := do
  match c.next.rest with
  | '<' :: _ =>
    let (name, c') ← tagName (c.skip 2)
    if c'.rest.head? = some '>' then return (none, name, c'.next)
    else throw .malformed
  | cs =>
    if endsWord cs then return (none, "!", c.next)
    else if (cs.takeWhile fun x => !(isBreak x || x == ' ')).contains '!' then
      let (handle, c') ← tagHandle c
      let (name, c'') ← tagName c'
      return (some handle, name, c'')
    else
      let (name, c') ← tagName c.next
      return (some "!", name, c')

/-- The tag whose first exclamation mark is here. -/
def tagToken (c : Cursor) : Except ReadError (Token × Cursor) := do
  let (handle, name, c') ← tagParts c
  if endsField c'.rest then return (.tag handle name, c')
  else throw .malformed

/-! ## Directives -/

/-- The number from here on, which may not be too long. -/
def versionNumber (c : Cursor) : Except ReadError (Nat × Cursor) :=
  match c.run Char.isDigit with
  | [] => .error .malformed
  | digits =>
    if Number.maxDigits < digits.length then .error (.scalar (.longInteger digits.length))
    else .ok (Number.digitsValue digits, c.skip digits.length)

def versionDirective (c : Cursor) : Except ReadError (Directive × Cursor) := do
  let (major, c) ← versionNumber c.skipSpaces
  if c.rest.head? ≠ some '.' then throw .malformed
  let (minor, c) ← versionNumber c.next
  if endsField c.rest then return (.version major minor, c)
  else throw .malformed

/-- A handle and what it stands for. -/
def tagDirective (c : Cursor) : Except ReadError (Directive × Cursor) := do
  let (handle, c) ← tagHandle c.skipSpaces
  if c.rest.head? ≠ some ' ' then throw .malformed
  let (start, c) ← tagName c.skipSpaces
  if endsField c.rest then return (.tag handle start, c)
  else throw .malformed

/-- The directive whose percent sign is in front of this place, with its line. -/
def directiveToken (c : Cursor) : Except ReadError (Token × Cursor) := do
  let (name, c) ← nameHere c
  if !endsField c.rest then throw .malformed
  let (d, c) ←
    match name with
    | "YAML" => versionDirective c
    | "TAG" => tagDirective c
    | _ => pure (Directive.other, c.skipRun (!isBreak ·))
  return (.directive d, ← skipRestOfLine c)

end ResolverKit.ConfigText
