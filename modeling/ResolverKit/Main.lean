import ResolverKit.Command.Lookup

/-!
# The program

Reads from the disk what a run of the command looks at, runs the command on that tree, and writes
back what the run has changed.
-/

namespace ResolverKit.Program

/-- What the disk holds at a path: a file, a directory, or nothing that can be read. -/
def nodeAt (path : String) : IO (Option Node) := do
  match ← (IO.FS.readBinFile path).toBaseIO with
  | .ok bytes =>
    match String.fromUTF8? bytes with
    | some text => return some (.file (.text text))
    | none => return some (.file (.binary bytes.toList))
  | .error _ =>
    match ← (IO.FS.Handle.mk path .read).toBaseIO with
    | .ok _ => return some (.dir [])
    | .error _ => return none

/-- The tree with what the disk holds at a path.  What is known already stays. -/
def fetch (t : FileTree) (path : String) : IO FileTree := do
  if t.exists? path then return t
  match ← nodeAt path with
  | some n => return t.place path n
  | none => return t

/-- The part of the disk that a run looks at. -/
partial def survey (args : List String) (t : FileTree) (seen : List String) : IO FileTree := do
  match ((Command.lookups t args).filter (!seen.contains ·)).eraseDups with
  | [] => return t
  | paths => survey args (← paths.foldlM fetch t) (seen ++ paths)

/-- Brings a change onto the disk: a file, or a directory, whose path ends with a slash. -/
def store : String × Option Content → IO Unit
  | (path, some (.text s)) => IO.FS.writeFile ("/" ++ path) s
  | (path, some (.binary bytes)) => IO.FS.writeBinFile ("/" ++ path) ⟨bytes.toArray⟩
  | (path, none) => IO.FS.createDir ("/" ++ path)

/-- Prints the messages that go to one of the outputs, in colours on a console. -/
def say (out : IO.FS.Stream) (isError : Bool) (ms : List Command.Message) : IO Unit := do
  out.putStr (Command.printed (← out.isTty) isError ms)
  out.flush

end ResolverKit.Program

open ResolverKit in
/-- Runs the command in the working directory; an error that it does not report gives status 1. -/
def main (args : List String) : IO UInt32 := do
  let here := (Path.segments (toString (← IO.currentDir))).filter (· ≠ "")
  let before ← Program.survey args (FileTree.empty here) []
  let outcome := Command.run before args
  let rooted (t : FileTree) : FileTree := { t with cwd := [] }
  (FileTree.changed (rooted before) (rooted outcome.tree)).forM Program.store
  Program.say (← IO.getStdout) false outcome.printed
  Program.say (← IO.getStderr) true outcome.printed
  match outcome.ending with
  | .exit status => return status.toUInt32
  | .crash _ => return 1
