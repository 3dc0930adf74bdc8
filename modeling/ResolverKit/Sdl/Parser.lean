import ResolverKit.Sdl.Document
import ResolverKit.Sdl.Lexer

/-!
# Parser of schema texts

`parse` reads a document.  A reader takes tokens off the front of the list and gives what they
stand for, or says why it cannot.  Every token is looked at before the one in front of it is
taken for good, so that a place without a token is reported as soon as it comes next.

Lists, objects, list types and selection sets may lie in one another two hundred deep.  The depth
that is left is an argument of the readers that go deeper, and they recurse on it.
-/

namespace ResolverKit.Sdl

/-- A reader of tokens. -/
abbrev Reader := StateT (List Token) (Except SyntaxError)

namespace Reader

/-! ## Single tokens -/

/-- The lexeme in front and its place; a broken token is an error. -/
def front : Reader (Lexeme × Nat) := do
  match ← get with
  | .lexeme kind offset :: _ => return (kind, offset)
  | .broken e :: _ => throw e
  | [] => return (.endOfText, 0)

def peek : Reader Lexeme := return (← front).1

/-- Drops the token in front, which must be followed by a token. -/
def advance : Reader Unit := do
  modify List.tail
  discard front

/-- Refuses the token in front for this reason. -/
def refuse {α : Type} (reason : Lexeme → Reason) : Reader α := do
  let (kind, offset) ← front
  throw ⟨reason kind, offset⟩

/-- Refuses the token in front, whatever it is. -/
def unexpected {α : Type} : Reader α := refuse .unexpected

/-- Takes the punctuator `p` if it comes next, and says whether it did. -/
def takes (p : Punctuator) : Reader Bool := do
  if (← peek) = .punct p then
    advance
    return true
  else return false

/-- Takes the punctuator `p`, which has to come next. -/
def expect (p : Punctuator) : Reader Unit := do
  if (← peek) = .punct p then advance
  else refuse (.expected (.punct p))

/-- Takes the keyword if it comes next, and says whether it did. -/
def takesKeyword (text : String) : Reader Bool := do
  if (← peek) = .name text then
    advance
    return true
  else return false

/-- Takes the keyword, which has to come next. -/
def expectKeyword (text : String) : Reader Unit := do
  if (← peek) = .name text then advance
  else refuse (.expected (.keyword text))

/-- Takes a name, which has to come next. -/
def name : Reader String := do
  match ← peek with
  | .name text =>
    advance
    return text
  | _ => refuse (.expected .name)

/-! ## Repetition -/

/-- Reads items up to the punctuator `close`.  An item that takes no token is the last one. -/
def itemsUntil {α : Type} (item : Reader α) (close : Punctuator) (ts : List Token) :
    Except SyntaxError (List α × List Token) :=
  match takes close ts with
  | .error e => .error e
  | .ok (true, rest) => .ok ([], rest)
  | .ok (false, _) =>
    match item ts with
    | .error e => .error e
    | .ok (a, rest) =>
      if rest.length < ts.length then
        match itemsUntil item close rest with
        | .error e => .error e
        | .ok (as, rest') => .ok (a :: as, rest')
      else .ok ([a], rest)
termination_by ts.length

/-- Any number of items between two punctuators. -/
def between {α : Type} (opening : Punctuator) (item : Reader α) (close : Punctuator) :
    Reader (List α) := do
  expect opening
  itemsUntil item close

/-- At least one item between two punctuators. -/
def someBetween {α : Type} (opening : Punctuator) (item : Reader α) (close : Punctuator) :
    Reader (List α) := do
  expect opening
  let first ← item
  let rest ← itemsUntil item close
  return first :: rest

/-- At least one item between two punctuators, or nothing at all. -/
def optionalBetween {α : Type} (opening : Punctuator) (item : Reader α) (close : Punctuator) :
    Reader (List α) := do
  if (← peek) = .punct opening then someBetween opening item close else return []

/-- Reads further items, each behind one more punctuator `between`. -/
def separatedTail {α : Type} (item : Reader α) (sep : Punctuator) (ts : List Token) :
    Except SyntaxError (List α × List Token) :=
  match takes sep ts with
  | .error e => .error e
  | .ok (false, rest) => .ok ([], rest)
  | .ok (true, behind) =>
    match item behind with
    | .error e => .error e
    | .ok (a, rest) =>
      if rest.length < ts.length then
        match separatedTail item sep rest with
        | .error e => .error e
        | .ok (as, rest') => .ok (a :: as, rest')
      else .ok ([a], rest)
termination_by ts.length

/-- At least one item, with `sep` between two of them and perhaps in front of the first. -/
def separated {α : Type} (item : Reader α) (sep : Punctuator) : Reader (List α) := do
  discard (takes sep)
  let first ← item
  let rest ← separatedTail item sep
  return first :: rest

/-! ## Values, types and directives -/

/-- A variable where the values have to be constant: an error that names it. -/
def variableInConstant : Reader Value := do
  let (kind, offset) ← front
  advance
  match ← peek with
  | .name text => throw ⟨.variableInConstant text, offset⟩
  | _ => throw ⟨.unexpected kind, offset⟩

def namedValue (text : String) : Value :=
  if text = "true" then .boolean true
  else if text = "false" then .boolean false
  else if text = "null" then .null
  else .enum text

/-- A value without values inside it. -/
def leaf (constant : Bool) : Reader Value := do
  match ← peek with
  | .int text => advance; return .int text
  | .float text => advance; return .float text
  | .string lit => advance; return .string lit
  | .name text => advance; return namedValue text
  | .punct .dollar =>
    if constant then variableInConstant
    else
      advance
      return .variable (← name)
  | _ => unexpected

/-- The value of an entry: a name, a colon and what `item` reads. -/
def entry {α : Type} (item : Reader α) : Reader (String × α) := do
  let n ← name
  expect .colon
  return (n, ← item)

/-- A value with `depth` levels of lists and objects still to go. -/
def value (constant : Bool) : Nat → Reader Value
  | 0 => do
    match ← peek with
    | .punct .bracketL => refuse fun _ => .tooDeep
    | .punct .braceL => refuse fun _ => .tooDeep
    | _ => leaf constant
  | depth + 1 => do
    match ← peek with
    | .punct .bracketL => return .list (← between .bracketL (value constant depth) .bracketR)
    | .punct .braceL =>
      return .object (← between .braceL (entry (value constant depth)) .braceR)
    | _ => leaf constant

/-- A type with `depth` levels of lists still to go. -/
def typeRef : Nat → Reader TypeRef
  | 0 => do
    if ← takes .bracketL then refuse fun _ => .tooDeep
    else
      let n ← name
      return .named n (← takes .bang)
  | depth + 1 => do
    if ← takes .bracketL then
      let item ← typeRef depth
      expect .bracketR
      return .list item (← takes .bang)
    else
      let n ← name
      return .named n (← takes .bang)

/-- The arguments at a use of a directive or a field, perhaps none. -/
def arguments (constant : Bool) (depth : Nat) : Reader (List Argument) := do
  let entries ← optionalBetween .parenL (entry (value constant depth)) .parenR
  return entries.map fun (n, v) => ⟨n, v⟩

/-- The uses of directives that come next, perhaps none. -/
def directivesFrom (constant : Bool) (depth : Nat) (ts : List Token) :
    Except SyntaxError (List Directive × List Token) :=
  match takes .at ts with
  | .error e => .error e
  | .ok (false, rest) => .ok ([], rest)
  | .ok (true, behind) =>
    match (do return ⟨← name, ← arguments constant depth⟩ : Reader Directive) behind with
    | .error e => .error e
    | .ok (d, rest) =>
      if rest.length < ts.length then
        match directivesFrom constant depth rest with
        | .error e => .error e
        | .ok (ds, rest') => .ok (d :: ds, rest')
      else .ok ([d], rest)
termination_by ts.length

/-- How deep lists, objects, list types and selection sets may lie in one another. -/
def maxDepth : Nat := 200

/-- The uses of directives that come next, with constant arguments. -/
def directives : Reader (List Directive) := directivesFrom true maxDepth

/-! ## Type system -/

def description : Reader (Option StringLit) := do
  match ← peek with
  | .string lit =>
    advance
    return some lit
  | _ => return none

def default : Reader (Option Value) := do
  if ← takes .equals then return some (← value true maxDepth) else return none

/-- An argument definition or an input field. -/
def inputValue : Reader InputValue := do
  let description ← description
  let n ← name
  expect .colon
  let type ← typeRef maxDepth
  let default ← default
  return ⟨description, n, type, default, ← directives⟩

/-- The argument definitions that come next, perhaps none. -/
def argumentDefs : Reader (List InputValue) := optionalBetween .parenL inputValue .parenR

def fieldDef : Reader FieldDef := do
  let description ← description
  let n ← name
  let arguments ← argumentDefs
  expect .colon
  let type ← typeRef maxDepth
  return ⟨description, n, arguments, type, ← directives⟩

/-- A value of an enum; three names are reserved. -/
def enumValue : Reader EnumValue := do
  let description ← description
  match (← peek).value? with
  | some "true" => refuse .reservedEnumValue
  | some "false" => refuse .reservedEnumValue
  | some "null" => refuse .reservedEnumValue
  | _ =>
    let n ← name
    return ⟨description, n, ← directives⟩

/-- The interfaces that come next behind their keyword, perhaps none. -/
def interfaces : Reader (List String) := do
  if ← takesKeyword "implements" then separated name .amp else return []

/-- The members of a union that come next, perhaps none. -/
def members : Reader (List String) := do
  if ← takes .equals then separated name .pipe else return []

def operationKind : Reader OperationKind := do
  let (kind, offset) ← front
  let text ← name
  match OperationKind.ofText? text with
  | some k => return k
  | none => throw ⟨.unexpected kind, offset⟩

def operationType : Reader (OperationKind × String) := do
  let k ← operationKind
  expect .colon
  return (k, ← name)

/-- The places at which a directive may be allowed. -/
def locationNames : List String :=
  ["QUERY", "MUTATION", "SUBSCRIPTION", "FIELD", "FRAGMENT_DEFINITION", "FRAGMENT_SPREAD",
    "INLINE_FRAGMENT", "VARIABLE_DEFINITION", "FRAGMENT_VARIABLE_DEFINITION", "SCHEMA", "SCALAR",
    "OBJECT", "FIELD_DEFINITION", "ARGUMENT_DEFINITION", "INTERFACE", "UNION", "ENUM", "ENUM_VALUE",
    "INPUT_OBJECT", "INPUT_FIELD_DEFINITION", "DIRECTIVE_DEFINITION"]

/-- A place at which a directive is allowed. -/
def location : Reader String := do
  let (kind, offset) ← front
  let text ← name
  if locationNames.contains text then return text else throw ⟨.unexpected kind, offset⟩

/-- What follows the keyword of a type definition: the name, the directives and the shape. -/
def typeBody (kind : TypeKind) : Reader (String × List Directive × TypeShape) := do
  let n ← name
  match kind with
  | .scalar => return (n, ← directives, .scalar)
  | .object =>
    let is ← interfaces
    let ds ← directives
    return (n, ds, .object is (← optionalBetween .braceL fieldDef .braceR))
  | .interface =>
    let is ← interfaces
    let ds ← directives
    return (n, ds, .interface is (← optionalBetween .braceL fieldDef .braceR))
  | .union =>
    let ds ← directives
    return (n, ds, .union (← members))
  | .enum =>
    let ds ← directives
    return (n, ds, .enum (← optionalBetween .braceL enumValue .braceR))
  | .input =>
    let ds ← directives
    return (n, ds, .input (← optionalBetween .braceL inputValue .braceR))

/-- The rest of an extension behind `extend`.  An extension has to add something. -/
def extension : Reader Definition := do
  match ← peek with
  | .name "schema" =>
    advance
    let ds ← directives
    let ops ← optionalBetween .braceL operationType .braceR
    if ds.isEmpty && ops.isEmpty then unexpected else return .extendSchema ds ops
  | .name "directive" =>
    advance
    expect .at
    let n ← name
    let ds ← directives
    if ds.isEmpty then unexpected else return .extendDirective n ds
  | .name keyword =>
    match TypeKind.ofKeyword? keyword with
    | some kind =>
      advance
      let (n, ds, shape) ← typeBody kind
      if ds.isEmpty && shape.isBare then unexpected else return .extendType n ds shape
    | none => unexpected
  | _ => unexpected

/-! ## Operations -/

def variableDef : Reader VariableDef := do
  let description ← description
  expect .dollar
  let n ← name
  expect .colon
  let type ← typeRef maxDepth
  let default ← default
  return ⟨description, n, type, default, ← directives⟩

/-- The name of a fragment; `on` is none. -/
def fragmentName : Reader String := do
  if (← peek).value? = some "on" then unexpected else name

/-- A spread or an inline fragment, whose selection set `inner` reads. -/
def fragmentSelection (inner : Reader (List Selection)) (depth : Nat) : Reader Selection := do
  expect .spread
  if ← takesKeyword "on" then
    let type ← name
    let ds ← directivesFrom false depth
    return .inline (some type) ds (← inner)
  else
    match ← peek with
    | .name _ =>
      let n ← fragmentName
      return .spread n (← directivesFrom false depth)
    | _ =>
      let ds ← directivesFrom false depth
      return .inline none ds (← inner)

/-- A field of a selection set, whose own selection set `inner` reads. -/
def fieldSelection (inner : Reader (List Selection)) (depth : Nat) : Reader Selection := do
  let first ← name
  let aliased ← takes .colon
  let n ← if aliased then name else pure first
  let args ← arguments false depth
  let ds ← directivesFrom false depth
  if (← peek) = .punct .braceL then
    return .field (if aliased then some first else none) n args ds (some (← inner))
  else return .field (if aliased then some first else none) n args ds none

/-- A selection set with `depth` levels still to go. -/
def selectionSet : Nat → Reader (List Selection)
  | 0 => do
    match ← peek with
    | .punct .braceL => refuse fun _ => .tooDeep
    | _ => refuse (.expected (.punct .braceL))
  | depth + 1 => do
    let selection : Reader Selection := do
      if (← peek) = .punct .spread then fragmentSelection (selectionSet depth) depth
      else fieldSelection (selectionSet depth) depth
    between .braceL selection .braceR

/-! ## Definitions -/

def optionalName : Reader (Option String) := do
  match ← peek with
  | .name _ => some <$> name
  | _ => return none

def operation (description : Option StringLit) : Reader Definition := do
  let k ← operationKind
  let n ← optionalName
  let vars ← optionalBetween .parenL variableDef .parenR
  let ds ← directivesFrom false maxDepth
  return .operation description k n vars ds (← selectionSet maxDepth)

/-- The definition that starts with the keyword in front, which `description` describes. -/
def described (description : Option StringLit) : Reader Definition := do
  match ← peek with
  | .name "schema" =>
    advance
    let ds ← directives
    return .schema description ds (← someBetween .braceL operationType .braceR)
  | .name "directive" =>
    advance
    expect .at
    let n ← name
    let args ← argumentDefs
    let ds ← directives
    let repeatable ← takesKeyword "repeatable"
    expectKeyword "on"
    return .directive description n args ds repeatable (← separated location .pipe)
  | .name "fragment" =>
    advance
    let n ← fragmentName
    expectKeyword "on"
    let type ← name
    let ds ← directivesFrom false maxDepth
    return .fragment description n type ds (← selectionSet maxDepth)
  | .name keyword =>
    match TypeKind.ofKeyword? keyword with
    | some kind =>
      advance
      let (n, ds, shape) ← typeBody kind
      return .type description n ds shape
    | none => operation description
  | _ => unexpected

def definitionKeywords : List String :=
  ["schema", "scalar", "type", "interface", "union", "enum", "input", "directive", "query",
    "mutation", "subscription", "fragment"]

def definition : Reader Definition := do
  match ← front with
  | (.punct .braceL, _) => return .operation none .query none [] [] (← selectionSet maxDepth)
  | (.string lit, offset) =>
    advance
    match ← peek with
    | .punct .braceL => throw ⟨.shorthandDescription, offset⟩
    | .name keyword =>
      if definitionKeywords.contains keyword then described (some lit)
      else throw ⟨.strayDescription, offset⟩
    | _ => unexpected
  | (.name "extend", _) =>
    advance
    extension
  | (.name keyword, _) =>
    if definitionKeywords.contains keyword then described none else unexpected
  | _ => unexpected

/-- Further definitions up to the end of the text. -/
def definitionsFrom (ts : List Token) : Except SyntaxError (Document × List Token) :=
  match peek ts with
  | .error e => .error e
  | .ok (.endOfText, rest) => .ok ([], rest)
  | .ok _ =>
    match definition ts with
    | .error e => .error e
    | .ok (d, rest) =>
      if rest.length < ts.length then
        match definitionsFrom rest with
        | .error e => .error e
        | .ok (ds, rest') => .ok (d :: ds, rest')
      else .ok ([d], rest)
termination_by ts.length

/-- A document: at least one definition. -/
def document : Reader Document := do
  let first ← definition
  let rest ← definitionsFrom
  return first :: rest

end Reader

/-- Reads a schema text. -/
def parse (text : String) : Except SyntaxError Document :=
  (Reader.document.run (tokens text)).map (·.1)

end ResolverKit.Sdl
