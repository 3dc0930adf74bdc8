import ResolverKit.ConfigText.Fault

/-!
# Tokens of configuration texts

What a configuration text in YAML 1.1 consists of.  A text with a fault still has the tokens in
front of it.
-/

namespace ResolverKit.ConfigText

open Text (CodeText)

inductive Directive
  | version (major minor : Nat)
  | tag (handle start : String)
  | other
  deriving DecidableEq, Repr

inductive Token
  | directive (d : Directive)
  | documentStart | documentEnd
  | blockSequenceStart | blockMappingStart | blockEnd
  | flowSequenceStart | flowSequenceEnd | flowMappingStart | flowMappingEnd
  | flowEntry | blockEntry | key | value
  | aliasOf (name : String)
  | anchor (name : String)
  | tag (handle : Option String) (suffix : String)
  | scalar (text : CodeText) (plain : Bool)
  deriving DecidableEq, Repr

/-- The tokens of a text, up to the fault that shows behind them, if there is one. -/
structure TokenList where
  tokens : List Token
  fault : Option ReadError
  deriving DecidableEq, Repr

end ResolverKit.ConfigText
