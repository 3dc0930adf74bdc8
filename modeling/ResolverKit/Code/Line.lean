import ResolverKit.Text.Comment

/-!
# Lines of generated code

Generated code is a list of lines, each with its indentation.  A description gives a comment line
of its own.
-/

namespace ResolverKit.Code

/-- A line: how far it is indented, in steps of two spaces, and its text. -/
structure Line where
  indent : Nat
  text : String
  deriving DecidableEq, Repr

def Line.blank : Line := ⟨0, ""⟩

/-- A line that is not indented. -/
def Line.top (text : String) : Line := ⟨0, text⟩

/-- A line that is indented by one step. -/
def Line.inner (text : String) : Line := ⟨1, text⟩

/-- The line one step further in; an empty line stays. -/
def Line.shift (l : Line) : Line := if l.text = "" then l else ⟨l.indent + 1, l.text⟩

def Line.comment (text : String) : Line := ⟨0, "/** " ++ text ++ " */"⟩

/-- The comment line for a description, if it says anything. -/
def docLines (description : Option String) : List Line :=
  let text := Text.commentText description
  if text = "" then [] else [.comment text]

def Line.render (l : Line) : String := String.ofList (List.replicate (2 * l.indent) ' ') ++ l.text

/-- The text of these lines; the last is not ended. -/
def renderLines (ls : List Line) : String := "\n".intercalate (ls.map Line.render)

end ResolverKit.Code
