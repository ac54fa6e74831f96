import Lia.Command

/-!
# The program

Reads the source file, runs the command, and brings what it gives to the file
system and the standard streams. Ids count up from a random start.
-/

namespace Lia.Command

/-- A source of ids from sixteen random bytes. -/
def randomIds : IO IdSource := do
  let bytes ← IO.getRandomBytes 16
  return .hexadecimal (Bytes.toNat bytes.toList)

def runFiles (i : Invocation) : IO UInt32 := do
  let some file := i.file | throw (IO.userError FileError.unnamed.message)
  let outcome := perform i file (← randomIds) (← IO.FS.readBinFile file)
  outcome.log.forM IO.eprintln
  if let some (path, output) := outcome.output then
    IO.FS.writeBinFile path (output.bytes Archive.pack)
  IO.print outcome.stdout
  match outcome.status with
  | .ok status => return status.toUInt32
  | .error e =>
    IO.eprintln e.message
    return 1

end Lia.Command

open Lia

def main (argv : List String) : IO UInt32 := do
  match Command.read argv with
  | .run i => Command.runFiles i
  | .help =>
    IO.print Command.usage
    return 0
  | .rejected =>
    IO.eprint Command.usage
    return 2
