import ResolverKit.Sdl.Document
import ResolverKit.Text.Lines

/-!
# Printer of documents

`print` writes a document in its usual form: definitions with an empty line between them, two
spaces of indentation for every level, one entry of a block on each line.  Lists and objects are
written on one line as long as they fit into 80 characters; argument definitions stay on one line
unless one of them takes several.
-/

namespace ResolverKit.Sdl

/-! ## Pieces of text -/

/-- The parts that are not empty, with `sep` between them. -/
def joined (sep : String) (parts : List String) : String := sep.intercalate (parts.filter (· ≠ ""))

/-- The text between `opening` and `closing`, or nothing if there is no text. -/
def wrapped (opening text closing : String) : String :=
  if text = "" then "" else opening ++ text ++ closing

/-- Two spaces behind every line end. -/
def indentRows : List Char → List Char
  | [] => []
  | '\n' :: r => '\n' :: ' ' :: ' ' :: indentRows r
  | c :: r => c :: indentRows r

/-- The text with all its rows two spaces further right. -/
def indented (text : String) : String :=
  wrapped "  " (String.ofList (indentRows text.toList)) ""

/-- The entries on lines of their own in braces, or nothing if there is no entry. -/
def braced (entries : List String) : String :=
  wrapped "\x7b\n" (indented (joined "\n" entries)) "\n\x7d"

/-- The text takes several rows. -/
def isMultiline (text : String) : Bool := text.toList.contains '\n'

/-- How wide a list, an object or a field with arguments may be on one line. -/
def maxWidth : Nat := 80

/-! ## Strings -/

def upperHexDigit (n : Nat) : Char :=
  if n < 10 then Char.ofNat (48 + n) else Char.ofNat (55 + n)

/-- One character between quotes: controls, quotes and backslashes are escaped. -/
def escapedChar (c : Char) : List Char :=
  match c with
  | '"' => ['\\', '"']
  | '\\' => ['\\', '\\']
  | '\x08' => ['\\', 'b']
  | '\t' => ['\\', 't']
  | '\n' => ['\\', 'n']
  | '\x0c' => ['\\', 'f']
  | '\r' => ['\\', 'r']
  | c =>
    let n := c.toNat
    if n < 0x20 || (0x7f ≤ n && n < 0xa0) then
      ['\\', 'u', '0', '0', upperHexDigit (n / 16), upperHexDigit (n % 16)]
    else [c]

def printQuoted (value : String) : String :=
  "\"" ++ String.ofList (value.toList.flatMap escapedChar) ++ "\""

/-- Every triple quote gets a backslash. -/
def escapeTripleQuotes : List Char → List Char
  | [] => []
  | '"' :: '"' :: '"' :: r => '\\' :: '"' :: '"' :: '"' :: escapeTripleQuotes r
  | c :: r => c :: escapeTripleQuotes r

/-- The row starts with a blank of the schema language. -/
def startsIndented (row : List Char) : Bool :=
  match row with
  | c :: _ => c = ' ' || c = '\t'
  | [] => false

/-- A string between triple quotes.  The quotes stand on lines of their own when the value takes
several rows or more than 70 characters, and whenever its value would be misread otherwise. -/
def printBlock (value : String) : String :=
  let escaped := escapeTripleQuotes value.toList
  let rows := Text.splitRows escaped
  let single := rows.length = 1
  let leading := !single && rows.tail.all fun row => row.isEmpty || startsIndented row
  let endsInTripleQuotes := ['\\', '"', '"', '"'].isSuffixOf escaped
  let endsInQuote := ['"'].isSuffixOf value.toList && !endsInTripleQuotes
  let trailing := endsInQuote || ['\\'].isSuffixOf value.toList
  let multiple := !single || 70 < value.length || trailing || leading || endsInTripleQuotes
  let skipFirst := single && startsIndented value.toList
  let before := if (multiple && !skipFirst) || leading then "\n" else ""
  let after := if multiple || trailing then "\n" else ""
  "\"\"\"" ++ before ++ String.ofList escaped ++ after ++ "\"\"\""

/-- A string as it was written: between quotes or as a block. -/
def StringLit.print (lit : StringLit) : String :=
  if lit.block then printBlock lit.value else printQuoted lit.value

/-! ## Types, values and directives -/

def TypeRef.print : TypeRef → String
  | .named n required => n ++ (if required then "!" else "")
  | .list t required => "[" ++ t.print ++ "]" ++ (if required then "!" else "")

def printList (items : List String) : String :=
  let line := "[" ++ joined ", " items ++ "]"
  if maxWidth < line.length then "[\n" ++ indented (joined "\n" items) ++ "\n]" else line

def printObject (fields : List String) : String :=
  let line := "\x7b " ++ joined ", " fields ++ " \x7d"
  if maxWidth < line.length then braced fields else line

mutual

def Value.print : Value → String
  | .variable n => "$" ++ n
  | .int t => t
  | .float t => t
  | .string lit => lit.print
  | .boolean b => if b then "true" else "false"
  | .null => "null"
  | .enum n => n
  | .list items => printList (printValues items)
  | .object fields => printObject (printEntries fields)

def printValues : List Value → List String
  | [] => []
  | v :: r => v.print :: printValues r

def printEntries : List (String × Value) → List String
  | [] => []
  | (n, v) :: r => (n ++ ": " ++ v.print) :: printEntries r

end

def Argument.print (a : Argument) : String := a.name ++ ": " ++ a.value.print

def Directive.print (d : Directive) : String :=
  "@" ++ d.name ++ wrapped "(" (joined ", " (d.arguments.map Argument.print)) ")"

def printDirectives (ds : List Directive) : String := joined " " (ds.map Directive.print)

/-- A description on the line before what it describes. -/
def printDescription (d : Option StringLit) : String :=
  match d with
  | some lit => wrapped "" lit.print "\n"
  | none => ""

def printDefault (lead : String) (v : Option Value) : String :=
  match v with
  | some v => wrapped lead v.print ""
  | none => ""

/-! ## Type system -/

/-- An argument definition or an input field. -/
def InputValue.print (v : InputValue) : String :=
  printDescription v.description ++
    joined " " [v.name ++ ": " ++ v.type.print, printDefault "= " v.default,
      printDirectives v.directives]

def printArgumentDefs (args : List InputValue) : String :=
  let texts := args.map InputValue.print
  if texts.any isMultiline then wrapped "(\n" (indented (joined "\n" texts)) "\n)"
  else wrapped "(" (joined ", " texts) ")"

def FieldDef.print (f : FieldDef) : String :=
  printDescription f.description ++ f.name ++ printArgumentDefs f.arguments ++ ": " ++
    f.type.print ++ wrapped " " (printDirectives f.directives) ""

def EnumValue.print (v : EnumValue) : String :=
  printDescription v.description ++ joined " " [v.name, printDirectives v.directives]

def printOperationType (op : OperationKind × String) : String := op.1.text ++ ": " ++ op.2

def printInterfaces (names : List String) : String :=
  wrapped "implements " (joined " & " names) ""

def printType (name : String) (directives : List Directive) (shape : TypeShape) : String :=
  let ds := printDirectives directives
  let keyword := shape.kind.keyword
  match shape with
  | .scalar => joined " " [keyword, name, ds]
  | .object interfaces fields =>
    joined " " [keyword, name, printInterfaces interfaces, ds, braced (fields.map FieldDef.print)]
  | .interface interfaces fields =>
    joined " " [keyword, name, printInterfaces interfaces, ds, braced (fields.map FieldDef.print)]
  | .union members => joined " " [keyword, name, ds, wrapped "= " (joined " | " members) ""]
  | .enum values => joined " " [keyword, name, ds, braced (values.map EnumValue.print)]
  | .input fields => joined " " [keyword, name, ds, braced (fields.map InputValue.print)]

/-! ## Operations -/

def VariableDef.print (v : VariableDef) : String :=
  printDescription v.description ++ "$" ++ v.name ++ ": " ++ v.type.print ++
    printDefault " = " v.default ++ wrapped " " (printDirectives v.directives) ""

def printVariables (vs : List VariableDef) : String :=
  let texts := vs.map VariableDef.print
  if texts.any isMultiline then wrapped "(\n" (joined "\n" texts) "\n)"
  else wrapped "(" (joined ", " texts) ")"

def bracedSelections (entries : List String) : String :=
  if entries.isEmpty then "\x7b\x7d" else braced entries

/-- A field of a selection set up to its directives. -/
def printFieldHead (alias? : Option String) (name : String) (args : List Argument) : String :=
  let head := (match alias? with | some a => a ++ ": " | none => "") ++ name
  let texts := args.map Argument.print
  let line := head ++ wrapped "(" (joined ", " texts) ")"
  if maxWidth < line.length then head ++ wrapped "(\n" (indented (joined "\n" texts)) "\n)"
  else line

mutual

def Selection.print : Selection → String
  | .field alias? name args ds none =>
    joined " " [printFieldHead alias? name args, printDirectives ds]
  | .field alias? name args ds (some selections) =>
    joined " " [printFieldHead alias? name args, printDirectives ds,
      bracedSelections (printSelections selections)]
  | .spread name ds => "..." ++ name ++ wrapped " " (printDirectives ds) ""
  | .inline on? ds selections =>
    joined " " ["...", (match on? with | some t => "on " ++ t | none => ""), printDirectives ds,
      bracedSelections (printSelections selections)]

def printSelections : List Selection → List String
  | [] => []
  | s :: r => s.print :: printSelections r

end

def printSelectionSet (selections : List Selection) : String :=
  bracedSelections (printSelections selections)

/-! ## Definitions -/

def Definition.print : Definition → String
  | .operation description kind name vars directives selections =>
    let head := printDescription description ++
      joined " " [kind.text, name.getD "" ++ printVariables vars,
        printDirectives directives]
    (if head = "query" then "" else head ++ " ") ++ printSelectionSet selections
  | .fragment description name on directives selections =>
    printDescription description ++ "fragment " ++ name ++ " on " ++ on ++ " " ++
      wrapped "" (printDirectives directives) " " ++ printSelectionSet selections
  | .schema description directives operations =>
    printDescription description ++
      joined " " ["schema", printDirectives directives, braced (operations.map printOperationType)]
  | .extendSchema directives operations =>
    joined " " ["extend schema", printDirectives directives,
      braced (operations.map printOperationType)]
  | .type description name directives shape =>
    printDescription description ++ printType name directives shape
  | .extendType name directives shape => "extend " ++ printType name directives shape
  | .directive description name args directives repeatable locations =>
    printDescription description ++ "directive @" ++ name ++ printArgumentDefs args ++
      wrapped " " (printDirectives directives) "" ++ (if repeatable then " repeatable" else "") ++
      " on " ++ joined " | " locations
  | .extendDirective name directives =>
    joined " " ["extend directive @" ++ name, printDirectives directives]

/-- A document, with an empty line between two definitions. -/
def Document.print (d : Document) : String := joined "\n\n" (d.map Definition.print)

end ResolverKit.Sdl
