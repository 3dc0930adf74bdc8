import ResolverKit.Text.Blank
import ResolverKit.Text.Lines

/-!
# Import statements

A schema file asks for definitions of other files in comments such as
`# import User, Post from "blog.graphql"`, each on a line of its own; a star asks for everything.
`Statement.ofLine?` reads one line, `statements` all lines of a file.
-/

namespace ResolverKit.Import

/-- The names that are asked for, sorted and without repetition; nothing stands for all names. -/
abbrev Selection := Option (List String)

/-- An import: what it asks for, and the path it names. -/
structure Statement where
  selection : Selection
  path : String
  deriving DecidableEq, Repr

/-! ## Lines -/

/-- The text behind the word that it has to start with. -/
def dropWord (word : String) (cs : List Char) : Option (List Char) :=
  if word.toList.isPrefixOf cs then some (cs.drop word.length) else none

/-- The text behind the blanks that it has to start with. -/
def dropBlanks (cs : List Char) : Option (List Char) :=
  match cs with
  | c :: _ => if Text.isBlank c then some (Text.trimLeft cs) else none
  | [] => none

def isQuote (c : Char) : Bool := c == '"' || c == '\''

/-- The end of a statement: blanks with at most one semicolon among them. -/
def isEnding (cs : List Char) : Bool :=
  match Text.trimLeft cs with
  | ';' :: r => (Text.trimLeft r).isEmpty
  | r => r.isEmpty

/-- The path at the end of a statement, from the blanks before `from` on. -/
def sourcePath? (cs : List Char) : Option (List Char) := do
  let r ← dropBlanks cs
  let r ← dropWord "from" r
  let r ← dropBlanks r
  match r with
  | q :: r =>
    let path := r.takeWhile (!isQuote ·)
    match r.dropWhile (!isQuote ·) with
    | _ :: rest => if isQuote q && !path.isEmpty && isEnding rest then some path else none
    | [] => none
  | [] => none

/-- Splits the text into the shortest list of names, of at least one character, that a path
follows. -/
def namesAndPath? : List Char → Option (List Char × List Char)
  | [] => none
  | c :: r =>
    match sourcePath? r with
    | some path => some ([c], path)
    | none => (namesAndPath? r).map fun (names, path) => (c :: names, path)

/-- The names and the path behind the word `import`.  At least one blank comes first; as many as
possible of them stand before the names. -/
def behindImport? (cs : List Char) : Option (List Char × List Char) :=
  let blanks := (cs.takeWhile Text.isBlank).length
  ((List.range blanks).reverse.map (· + 1)).findSome? fun k => namesAndPath? (cs.drop k)

def splitCommas : List Char → List (List Char)
  | [] => [[]]
  | c :: r =>
    if c = ',' then [] :: splitCommas r
    else
      match splitCommas r with
      | [] => [[c]]
      | s :: ss => (c :: s) :: ss

/-- Drops every element that is equal to the one before it. -/
def dropRepeats : List String → List String
  | a :: b :: r => if a = b then dropRepeats (b :: r) else a :: dropRepeats (b :: r)
  | l => l

/-- The names in their order, without repetition. -/
def sortedNames (names : List String) : List String :=
  dropRepeats (names.mergeSort fun a b => decide (a ≤ b))

def Selection.ofText (cs : List Char) : Selection :=
  let cs := Text.trim cs
  if cs = ['*'] then none
  else
    some (sortedNames
      (((splitCommas cs).map Text.trim).filter (!·.isEmpty) |>.map String.ofList))

def Statement.ofLine? (line : List Char) : Option Statement := do
  let r ← dropWord "#" (Text.trimLeft line)
  let r ← dropWord "import" (Text.trimLeft r)
  let (names, path) ← behindImport? r
  return ⟨Selection.ofText names, String.ofList path⟩

/-- The import statements of a file. -/
def statements (text : String) : List Statement :=
  (Text.splitLines text.toList).filterMap Statement.ofLine?

/-- A line that is neither blank nor a comment. -/
def isSubstance (line : List Char) : Bool :=
  match Text.trim line with
  | [] => false
  | c :: _ => c ≠ '#'

/-- The file holds nothing but blank lines and comments. -/
def isOnlyComments (text : String) : Bool :=
  !(Text.splitLines text.toList).any isSubstance

end ResolverKit.Import
