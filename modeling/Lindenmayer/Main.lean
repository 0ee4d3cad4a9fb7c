import Lindenmayer.Command.Help
import Lindenmayer.Command.Outcome

/-!
# The program

Arguments, environment variables and files go in; texts, files and a status come out.
What they have to do with one another is decided elsewhere.
-/

namespace Lindenmayer.Main

open Command

/-- The preferences in the environment of the process. -/
def preferences : IO Preferences := do
  let values ← Preferences.environmentNames.mapM fun name => do return (name, ← IO.getEnv name)
  return .ofEnvironment fun name => (values.lookup name).join

/-- Read a file, or say why it cannot be read. -/
def load (path : String) : IO (Except String String) := do
  try return .ok (← IO.FS.readFile path)
  catch error => return .error (toString error)

/-- Write the product of an outcome to its file, if it has both. -/
def store (outcome : Outcome) : IO Outcome := do
  match outcome.product?, outcome.destination? with
  | some product, some path =>
      try
        IO.FS.writeFile path product.content
        return outcome
      catch error => return outcome.unwritten (toString error)
  | _, _ => return outcome

/-- Do what is asked. -/
def run (invocation : Invocation) : IO UInt32 := do
  let preferences ← preferences
  let source ←
    match invocation.source? with
    | some path => load path
    | none => pure (.ok "")
  let outcome ← store (invocation.run preferences fun _ => source)
  for note in outcome.notes do
    IO.eprintln note
  IO.print outcome.output
  return if outcome.success then 0 else 1

end Lindenmayer.Main

open Lindenmayer.Command in
/-- The program. -/
def main (arguments : List String) : IO UInt32 := do
  match Invocation.read arguments with
  | .ok invocation => Lindenmayer.Main.run invocation
  | .error stop =>
      for line in stop.lines do
        if stop.status = 0 then IO.println line else IO.eprintln line
      return stop.status
