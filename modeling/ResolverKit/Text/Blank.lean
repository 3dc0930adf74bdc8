/-!
# Blank characters

Which characters count as blank space, and the two operations on a text that depend on it:
trimming both ends and squeezing every run of blanks to one space.  The class is the one of
the Unicode standard for white space together with the four ASCII information separators.
-/

namespace ResolverKit.Text

/-! ## Algorithm -/

/-- The blank characters: ASCII controls for layout, the information separators, the space and
the separators of the Unicode blocks. -/
def isBlank (c : Char) : Bool :=
  let n := c.toNat
  (9 ≤ n && n ≤ 13) || (28 ≤ n && n ≤ 32) || n == 0x85 || n == 0xa0 || n == 0x1680 ||
    (0x2000 ≤ n && n ≤ 0x200a) || n == 0x2028 || n == 0x2029 || n == 0x202f || n == 0x205f ||
    n == 0x3000

/-- The text without the blanks at its front. -/
def trimLeft (cs : List Char) : List Char := cs.dropWhile isBlank

/-- The text without the blanks at its end. -/
def trimRight (cs : List Char) : List Char := (trimLeft cs.reverse).reverse

/-- The text without the blanks at both ends. -/
def trim (cs : List Char) : List Char := trimRight (trimLeft cs)

/-- Every run of blanks becomes one space.  `inRun` says that the character before was blank. -/
def squeezeFrom (inRun : Bool) : List Char → List Char
  | [] => []
  | c :: r =>
    if isBlank c then
      if inRun then squeezeFrom true r else ' ' :: squeezeFrom true r
    else c :: squeezeFrom false r

/-- Every run of blanks becomes one space. -/
def squeeze (cs : List Char) : List Char := squeezeFrom false cs

/-- `trim` on strings. -/
def trimmed (s : String) : String := String.ofList (trim s.toList)

/-! ## Lemmas -/

@[simp] theorem trimLeft_nil : trimLeft [] = [] := rfl

@[simp] theorem trim_nil : trim [] = [] := rfl

end ResolverKit.Text
