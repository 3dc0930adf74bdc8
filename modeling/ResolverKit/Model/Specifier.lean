import ResolverKit.Path

/-!
# Module specifiers

How a generated file refers to a model file: by the relative path from its own directory, without
the extension of a source file and without the name `index` of a directory's main file.
-/

namespace ResolverKit.Model

def sourceExtensions : List String := [".ts", ".tsx", ".js", ".jsx", ".mjs"]

def dropEnding? (ending : String) (cs : List Char) : Option (List Char) :=
  if ending.toList.isSuffixOf cs then some (cs.take (cs.length - ending.length)) else none

/-- The text without the extension of a source file, with or without the `.d` of a declaration
file before it. -/
def dropExtension (cs : List Char) : List Char :=
  match sourceExtensions.findSome? (dropEnding? · cs) with
  | some base => (dropEnding? ".d" base).getD base
  | none => cs

/-- The same for a text that may end with a line feed, which stays. -/
def dropExtensionInLine (cs : List Char) : List Char :=
  match cs.reverse with
  | '\n' :: r => dropExtension r.reverse ++ ['\n']
  | _ => dropExtension cs

/-- A path that does not start with a dot gets one. -/
def dotted (cs : List Char) : List Char :=
  if cs.head? = some '.' then cs else '.' :: '/' :: cs

/-- The specifier for the relative path of a model file. -/
def specifierOf (relative : String) : String :=
  let cs := dropExtensionInLine (dotted relative.toList)
  String.ofList ((dropEnding? "/index" cs).getD cs)

/-- The specifier for a model file as seen from the file `output`; an empty path has none. -/
def specifier? (cwd file output : String) : Option String :=
  (Path.relative? cwd file (Path.dirname (Path.absolute cwd output))).map specifierOf

end ResolverKit.Model
