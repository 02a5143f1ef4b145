import Dataflow.Command.Basic
import Dataflow.Program.Json
import Dataflow.Taint.Json

/-!
# The command line

Reads files and prints; everything else is said elsewhere.
-/

namespace Dataflow

namespace Command

/-- The value in a file. -/
def readWith {α : Type} (file noun : String) (read : String → Option α) : IO α := do
  let text ←
    try IO.FS.readFile file
    catch _ => throw (.userError ("could not read " ++ file))
  match read text with
  | some a => return a
  | none => throw (.userError (file ++ " is not a valid " ++ noun))

/-- Answers a command. -/
def answer : Command → IO Unit
  | .methods file => do
    let p ← readWith file "program" Program.ofText?
    p.methodList.forM fun m => IO.println m.text
  | .analyze file options => do
    let p ← readWith file "program" Program.ofText?
    let taint ←
      match options.taintFile with
      | some file => readWith file "taint configuration" TaintConfig.ofText?
      | none => pure TaintConfig.empty
    match report p taint options with
    | .error message => throw (.userError message)
    | .ok (texts, failure) =>
      texts.forM IO.println
      match failure with
      | some f => throw (.userError f.message)
      | none => pure ()

end Command

end Dataflow

/-- Answers the command that the arguments ask for. -/
def main (arguments : List String) : IO UInt32 := do
  try
    match Dataflow.Command.parse arguments with
    | .ok command =>
      command.answer
      return 0
    | .error message => throw (.userError message)
  catch e =>
    IO.eprintln ("Error: " ++ toString e)
    return 1
