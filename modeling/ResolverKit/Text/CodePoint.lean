import ResolverKit.Text.Quoted

/-!
# Code points

An escape can name any code point, also a surrogate, which stands for no character.  A `CodeText`
is a text of code points; those without surrogates are the usual texts.

Main statements: a text reads back from its code points (`chars?_ofChars`), and only code points
of a text do (`eq_ofChars_of_chars?`).
-/

namespace ResolverKit.Text

/-- A code point: a character, or a surrogate with its number. -/
inductive CodePoint
  | char (c : Char)
  | surrogate (n : Nat)
  deriving DecidableEq, Repr

abbrev CodeText := List CodePoint

/-! ## Algorithm -/

/-- The number of a code point is that of a character: all but the surrogates. -/
def isScalarValue (n : Nat) : Bool := n ≤ 0xd7ff || (0xe000 ≤ n && n ≤ 0x10ffff)

def CodePoint.is (c : Char) : CodePoint → Bool
  | .char d => c == d
  | .surrogate _ => false

def CodePoint.char? : CodePoint → Option Char
  | .char c => some c
  | .surrogate _ => none

def CodePoint.quoted (quote : Char) : CodePoint → List Char
  | .char c => quotedChar quote c
  | .surrogate n => '\\' :: 'u' :: hexDigits 4 n

/-- What a console shows of a code point: an escape where there is no character. -/
def CodePoint.shown : CodePoint → List Char
  | .char c => [c]
  | .surrogate n => '\\' :: 'u' :: hexDigits 4 n

/-- What is left of a code point in Unicode: three replacement characters for a surrogate, one for
each byte that would be needed to encode it. -/
def CodePoint.replaced : CodePoint → List Char
  | .char c => [c]
  | .surrogate _ => ['\ufffd', '\ufffd', '\ufffd']

namespace CodeText

def ofChars (cs : List Char) : CodeText := cs.map .char

def ofString (s : String) : CodeText := ofChars s.toList

def chars? : CodeText → Option (List Char)
  | [] => some []
  | .char c :: r => (chars? r).map (c :: ·)
  | .surrogate _ :: _ => none

/-- The text as a string, if there are no surrogates in it. -/
def string? (t : CodeText) : Option String := (chars? t).map String.ofList

/-- The text as a console shows it. -/
def shown (t : CodeText) : String := String.ofList (t.flatMap CodePoint.shown)

def replaced (t : CodeText) : String := String.ofList (t.flatMap CodePoint.replaced)

def quoted (t : CodeText) : String :=
  let quote := quoteFor (t.filterMap CodePoint.char?)
  String.ofList (quote :: t.flatMap (CodePoint.quoted quote) ++ [quote])

/-! ## Lemmas -/

@[simp] theorem chars?_ofChars (cs : List Char) : chars? (ofChars cs) = some cs := by
  induction cs with
  | nil => rfl
  | cons c r ih => simpa [ofChars, chars?] using ih

theorem eq_ofChars_of_chars? {t : CodeText} {cs : List Char} (h : chars? t = some cs) :
    t = ofChars cs := by
  induction t generalizing cs with
  | nil => simp_all [chars?, ofChars]
  | cons p r ih =>
    cases p with
    | char c =>
      obtain ⟨ds, hd, rfl⟩ := Option.map_eq_some_iff.1 h
      simp [ofChars, ih hd]
    | surrogate n => simp [chars?] at h

end CodeText

end ResolverKit.Text
