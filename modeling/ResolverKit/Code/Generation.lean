import ResolverKit.Code.Flow
import ResolverKit.Code.Layout
import ResolverKit.Code.Scaffold
import ResolverKit.Code.TypeScript
import ResolverKit.Schema.Extraction

/-!
# Generation

From a document and the models of its types to the types file and the scaffolds, laid out if that
is wanted.
-/

namespace ResolverKit.Code

/-- Why nothing is generated. -/
inductive GenerationError
  | extraction (e : Schema.ExtractionError)
  | model (e : Model.ModelError)
  | unknownLanguage (name : String)
  deriving DecidableEq, Repr

def GenerationError.message : GenerationError → String
  | .extraction e => e.message
  | .model e => e.message
  | .unknownLanguage name => "Invalid language: " ++ name

def findLanguage (name : String) : Except GenerationError Language :=
  match Language.ofName? name with
  | some lang => .ok lang
  | none => .error (.unknownLanguage name)

/-- Where the types file finds the context type. -/
def contextPath : String := "../resolvers/types/Context"

def TypesFile.render (lang : Language) (f : TypesFile) : String :=
  renderLines <|
    match lang with
    | .typescript => TypeScript.lines f
    | .flow => Flow.lines f

/-- What is generated in one run. -/
structure Generated where
  types : String
  resolvers : List CodeFile
  deriving Repr

/-- The code of a plan, as the generators write it. -/
def generateRaw (lang : Language) (p : Plan) : Generated :=
  ⟨(TypesFile.ofPlan lang contextPath p).render lang, scaffolds lang p⟩

/-- The code with all its files laid out. -/
def Generated.format (g : Generated) (options : LayoutOptions) : Generated :=
  ⟨Code.format options g.types,
    g.resolvers.map fun f => { f with code := Code.format options f.code }⟩

/-- Generates code for a document.  Without layout options the code stays as it is written. -/
def generate (d : Sdl.Document) (bindings : Model.Bindings) (layout : Option LayoutOptions)
    (language : String) : Except GenerationError Generated := do
  let schema ← (Schema.ofDocument d).mapError .extraction
  (Model.checkTypes bindings (schema.types.map (·.name))).mapError .model
  let lang ← findLanguage language
  let g := generateRaw lang (.of schema bindings)
  return match layout with
    | some options => g.format options
    | none => g

end ResolverKit.Code
