import ResolverKit.Sdl.Lexer

/-!
# Places in a schema text

Where an offset lies in a schema text, and how the place of an error is shown: the message, the
name of the text with row and column, and the row in question between its neighbours, with a
caret below the column.  A row of more than 120 characters is shown in pieces of 80; a column
behind the last piece belongs to that piece.
-/

namespace ResolverKit.Sdl

/-- A schema text with the name under which messages refer to it. -/
structure Source where
  name : String
  text : String
  deriving Repr

/-- The row and the column of an offset, both counted from `row` and `column` at the front. -/
def placeFrom (row column : Nat) : (offset : Nat) → List Char → Nat × Nat
  | 0, _ => (row, column)
  | _ + 1, [] => (row, column)
  | 1, '\r' :: '\n' :: _ => (row + 1, 0)
  | offset + 2, '\r' :: '\n' :: r => placeFrom (row + 1) 1 offset r
  | offset + 1, c :: r =>
    if Text.isRowEnd c then placeFrom (row + 1) 1 offset r else placeFrom row (column + 1) offset r

/-- The row and the column of an offset in a text, both counted from one. -/
def place (offset : Nat) (text : String) : Nat × Nat := placeFrom 1 1 offset text.toList

/-- The text with spaces in front of it, up to `width` characters in all. -/
def padLeft (width : Nat) (cs : List Char) : List Char :=
  List.replicate (width - cs.length) ' ' ++ cs

/-- Pieces of 80 characters; the last may be shorter. -/
def pieces (cs : List Char) : List (List Char) :=
  if cs.length ≤ 80 then (if cs.isEmpty then [] else [cs])
  else cs.take 80 :: pieces (cs.drop 80)
termination_by cs.length
decreasing_by rw [List.length_drop]; omega

/-- The labelled rows of an excerpt for the place `row`, `column` in these rows. -/
def excerptRows (rows : List (List Char)) (row column : Nat) : List (String × List Char) :=
  let line := rows[row - 1]?.getD []
  let label (n : Nat) := toString n ++ " |"
  if 120 < line.length then
    let parts := pieces line
    let index := min ((column - 1) / 80) (parts.length - 1)
    [(label row, parts.headD [])] ++
      ((parts.drop 1).take index).map (fun part => ("|", part)) ++
      [("|", padLeft (column - 80 * index) ['^'])] ++
      (parts[index + 1]?.toList.map fun part => ("|", part))
  else
    (if 1 < row then (rows[row - 2]?.toList.map fun l => (label (row - 1), l)) else []) ++
      [(label row, line), ("|", padLeft column ['^'])] ++
      (rows[row]?.toList.map fun l => (label (row + 1), l))

/-- One row of an excerpt behind its label; an empty row has no space behind the bar. -/
def excerptRow (width : Nat) (label : String) (line : List Char) : String :=
  String.ofList (padLeft width label.toList ++ if line.isEmpty then [] else ' ' :: line)

/-- The place of an offset and the rows around it. -/
def Source.excerpt (source : Source) (offset : Nat) : String :=
  let (row, column) := place offset source.text
  let rows := excerptRows (Text.splitRows source.text.toList) row column
  let width := (rows.map (·.1.length)).foldl max 0
  source.name ++ ":" ++ toString row ++ ":" ++ toString column ++ "\n" ++
    "\n".intercalate (rows.map fun (label, line) => excerptRow width label line)

/-- The full text of a syntax error in a source. -/
def Source.report (source : Source) (e : SyntaxError) : String :=
  "Syntax Error: " ++ e.reason.message ++ "\n\n" ++ source.excerpt e.offset

end ResolverKit.Sdl
