import ResolverKit.Text.Blank

/-!
# Comment texts

A description becomes the text of a comment on one line: every comment closer inside it is broken
up by a space, every run of blanks becomes one space, and blanks at the ends go.
-/

namespace ResolverKit.Text

/-- Puts a space into every comment closer. -/
def breakClosers : List Char → List Char
  | [] => []
  | '*' :: '/' :: r => '*' :: ' ' :: '/' :: breakClosers r
  | c :: r => c :: breakClosers r

/-- The characters of a description as they stand in a comment. -/
def commentChars (cs : List Char) : List Char := trim (squeeze (breakClosers cs))

/-- The text of a description in a comment; without a description it is empty. -/
def commentText (description : Option String) : String :=
  String.ofList (commentChars ((description.getD "").toList))

end ResolverKit.Text
