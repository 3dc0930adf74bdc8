import ResolverKit.Text.Blank
import ResolverKit.Text.Lines

/-!
# Layout of code

`format` indents code by the depth of its brackets and puts its empty lines in order: runs of
them become one, none stands behind a line that opens a bracket, before a line that starts by
closing one, or at either end.  Brackets in texts between quotes and in comments do not count.
-/

namespace ResolverKit.Code

/-! ## Options -/

/-- How code is indented. -/
structure LayoutOptions where
  tabWidth : Nat
  useTabs : Bool
  deriving DecidableEq, Repr

/-- Two spaces for each level. -/
def LayoutOptions.standard : LayoutOptions := ⟨2, false⟩

/-- What stands in front of a line for each level. -/
def LayoutOptions.unit (o : LayoutOptions) : List Char :=
  if o.useTabs then ['\t'] else List.replicate o.tabWidth ' '

/-- Why the spaces of one level cannot be made. -/
inductive WidthFault
  | uncountable
  | tooLarge
  deriving DecidableEq, Repr

/-- What is said of a fault; of the want of memory there is nothing to say. -/
def WidthFault.message : WidthFault → String
  | .uncountable => "cannot fit 'int' into an index-sized integer"
  | .tooLarge => ""

/-- The widths from here on that a signed word cannot hold. -/
def uncountableWidth : Nat := 1 <<< 63

/-- The widths from here on for which there is no memory.  The program itself has no such bound; it
is that of a machine on which one indentation of 8 GiB cannot be made. -/
def tooLargeWidth : Nat := 1 <<< 33

/-- Why nothing can be laid out with these options.  A tabulator can always be made. -/
def LayoutOptions.fault? (o : LayoutOptions) : Option WidthFault :=
  if o.useTabs then none
  else if uncountableWidth ≤ o.tabWidth then some .uncountable
  else if tooLargeWidth ≤ o.tabWidth then some .tooLarge
  else none

/-! ## Brackets of a line -/

def isOpener (c : Char) : Bool := c == '{' || c == '(' || c == '['

def isCloser (c : Char) : Bool := c == '}' || c == ')' || c == ']'

/-- The quotes between which texts stand. -/
def isQuote (c : Char) : Bool := c == '\'' || c == '"' || c == '\x60'

/-- What the characters of a line belong to. -/
inductive Region
  | code
  | quoted (quote : Char)
  | comment
  deriving DecidableEq, Repr

/-- Opening minus closing brackets in the code of a line that starts in this region. -/
def bracketsFrom : Region → List Char → Int
  | _, [] => 0
  | .quoted q, c :: r =>
    if c = '\\' then
      match r with
      | _ :: r' => bracketsFrom (.quoted q) r'
      | [] => 0
    else bracketsFrom (if c = q then .code else .quoted q) r
  | .comment, '*' :: '/' :: r => bracketsFrom .code r
  | .comment, _ :: r => bracketsFrom .comment r
  | .code, '/' :: '/' :: _ => 0
  | .code, '/' :: '*' :: r => bracketsFrom .comment r
  | .code, c :: r =>
    if isQuote c then bracketsFrom (.quoted c) r
    else if isOpener c then 1 + bracketsFrom .code r
    else if isCloser c then bracketsFrom .code r - 1
    else bracketsFrom .code r

/-- Opening minus closing brackets in the code of a line. -/
def bracketDelta (line : List Char) : Int := bracketsFrom .code line

/-- The number of closing brackets at the front of a line, each perhaps behind a bar. -/
def leadingClosers : List Char → Nat
  | '|' :: c :: r => if isCloser c then leadingClosers r + 1 else 0
  | c :: r => if isCloser c then leadingClosers r + 1 else 0
  | [] => 0

/-- The line ends with an opening bracket; bars behind it do not count. -/
def opensBlock (line : List Char) : Bool :=
  match line.reverse.dropWhile (· = '|') with
  | c :: _ => isOpener c
  | [] => false

/-! ## Lines -/

/-- The lines written so far, the last one first, and the depth behind them. -/
structure Layout where
  written : List (List Char)
  depth : Nat
  deriving Repr

/-- Adds an empty line where one may stand. -/
def Layout.addBlank (l : Layout) : Layout :=
  match l.written with
  | last :: _ =>
    if last.isEmpty || opensBlock last then l else { l with written := [] :: l.written }
  | [] => l

/-- Drops an empty line at the end. -/
def dropBlank : List (List Char) → List (List Char)
  | [] :: r => r
  | ls => ls

def Layout.addLine (unit : List Char) (l : Layout) (line : List Char) : Layout :=
  let closers := leadingClosers line
  let written := if closers = 0 then l.written else dropBlank l.written
  let indent := (List.replicate (l.depth - closers) unit).flatten
  ⟨(indent ++ line) :: written, (l.depth + bracketDelta line).toNat⟩

/-- Adds a line, trimmed. -/
def Layout.add (unit : List Char) (l : Layout) (raw : List Char) : Layout :=
  match Text.trim raw with
  | [] => l.addBlank
  | line => l.addLine unit line

def layout (unit : List Char) (cs : List Char) : Layout :=
  (Text.splitLines cs).foldl (Layout.add unit) ⟨[], 0⟩

/-- The code with its lines laid out; it ends with a line feed. -/
def format (options : LayoutOptions) (code : String) : String :=
  let lines := (dropBlank (layout options.unit code.toList).written).reverse
  String.ofList (['\n'].intercalate lines ++ ['\n'])

end ResolverKit.Code
