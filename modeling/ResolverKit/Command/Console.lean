/-!
# Messages on the console

Every message is a line, on the standard output or on the standard error output, and may have a
colour.
-/

namespace ResolverKit.Command

inductive Colour
  | red | green | yellow | blue
  deriving DecidableEq, Repr

def Colour.number : Colour → Nat
  | .red => 31
  | .green => 32
  | .yellow => 33
  | .blue => 34

/-- A message; `isError` says that it goes to the standard error output. -/
structure Message where
  text : String
  colour : Option Colour
  isError : Bool
  deriving DecidableEq, Repr

namespace Message

/-- Something worth knowing. -/
def info (text : String) : Message := ⟨text, some .blue, false⟩

/-- Something that was done. -/
def success (text : String) : Message := ⟨text, some .green, false⟩

/-- Something that was left undone. -/
def warning (text : String) : Message := ⟨text, some .yellow, false⟩

/-- Something that went wrong. -/
def error (text : String) : Message := ⟨text, some .red, true⟩

/-- Something without colour. -/
def plain (text : String) : Message := ⟨text, none, false⟩

/-- Something wrong with the arguments. -/
def usage (text : String) : Message := ⟨text, none, true⟩

/-- The line of a message on a console with or without colours. -/
def render (coloured : Bool) (m : Message) : String :=
  match m.colour with
  | some c =>
    if coloured then "\x1b[" ++ toString c.number ++ "m" ++ m.text ++ "\x1b[0m\n"
    else m.text ++ "\n"
  | none => m.text ++ "\n"

end Message

def printed (coloured isError : Bool) (ms : List Message) : String :=
  String.join ((ms.filter (·.isError == isError)).map (Message.render coloured))

end ResolverKit.Command
