import Graft.Program

/-!
# Graft.Main

The command line program.
-/

namespace Graft

/-- All that is left on a stream, behind `acc`. -/
partial def readRest (stream : IO.FS.Stream) (acc : ByteArray) : IO ByteArray := do
  let bytes ← stream.read 65536
  if bytes.isEmpty then return acc else readRest stream (acc ++ bytes)

/-- The bytes as text, if there are any and they are UTF-8. -/
def decode (bytes : Except IO.Error ByteArray) : Option String :=
  match bytes with
  | .ok bytes => String.fromUTF8? bytes
  | .error _ => none

/-- The host of a running process. -/
def processHost : Host IO where
  readFile name := return decode (← (IO.FS.readBinFile name).toBaseIO)
  readInput := return decode (← (do readRest (← IO.getStdin) .empty : IO ByteArray).toBaseIO)

/-- The variables of the environment that the program looks at. -/
def environment : IO (Entries String) := do
  let mut found := []
  for name in Settings.variableNames do
    if let some value ← IO.getEnv name then
      found := (name, value) :: found
  return found

end Graft

open Graft in
/-- Runs the program: its output on standard output, what went wrong on standard
error. -/
def main (args : List String) : IO UInt32 := do
  let outcome ← Program.run processHost (.ofEnvironment (← environment)) args
  IO.print outcome.output
  match outcome with
  | .printed _ => pure ()
  | .failed message cause =>
    IO.eprintln ("Error: " ++ message)
    if let some cause := cause then
      IO.eprintln ("\nCaused by:\n    " ++ cause)
  | .refused => IO.eprint (CommandLine.usage .program)
  return outcome.exitCode.toUInt32
