/-
# The program

The outermost layer. It reads the files that a command line names, carries the command out
on them, prints, and writes the files that have changed. A file that cannot be written is
one more property of the file system, so the command is then carried out once more, from
the files that were read and with the knowledge that writing this one fails.
-/

import BinaryPatch.Command.Run
import Std.Time.DateTime.Timestamp

namespace BinaryPatch
namespace Program

/-- How the program is used. -/
def usage : List String := [
  "Usage: voxpatch [-c CONFIG] [-v] COMMAND",
  "",
  "  resolve FILE [--catalog JSON] [--export JSON]",
  "  status FILE [--catalog JSON]",
  "  apply FILE [--catalog JSON] [--body ID[@PLATFORM]=PATH]... [--dry-run]",
  "        [--restore-point JSON]",
  "  restore FILE --restore-point JSON",
  "  catalog [--catalog JSON] [--output JSON]"]

/-- The fault behind an error of the operating system. A code may be given with its sign
changed. -/
def faultOf : IO.Error → StorageFault
  | .noFileOrDirectory _ _ _ => .notFound
  | .permissionDenied _ _ _ => .denied
  | .inappropriateType file code details =>
    match min code (0 - code) with
    | 20 => .notDirectory
    | 21 => .isDirectory
    | _ => .other (toString (IO.Error.inappropriateType file code details))
  | error => .other (toString error)

/-- The time. -/
def now : IO Timestamp := do
  let nanos := (← Std.Time.Timestamp.now).toNanosecondsSinceUnixEpoch.val
  return ⟨nanos.fdiv 1000000000, (nanos.fmod 1000000000).toNat⟩

/-- Take in one more file, or the fault that reading it meets. -/
def readInput (fs : FileSystem) (path : String) : IO FileSystem := do
  match ← (IO.FS.readBinFile path).toBaseIO with
  | .ok bytes => return fs.put path bytes
  | .error error => return fs.failReading path (faultOf error)

/-- Put new contents in the place of a file in one step. -/
def replace (path : String) (bytes : ByteArray) : IO Unit := do
  let draft := path ++ ".part"
  IO.FS.writeBinFile draft bytes
  try
    IO.FS.rename draft path
  catch error =>
    IO.FS.removeFile draft
    throw error

/-- Write the files that have changed, up to the first that cannot be written. -/
def writeChanges (before after : FileSystem) : IO (Option (String × StorageFault)) := do
  for (path, bytes) in after.files.reverse do
    if (before.contents path).map ByteArray.data ≠ some bytes.data then
      match ← (replace path bytes).toBaseIO with
      | .ok () => pure ()
      | .error error => return some (path, faultOf error)
  return none

/-- Carry out a command line, as often as a file turns out not to be writable. -/
partial def carryOut (fs : FileSystem) (time : Timestamp) (i : Invocation) : IO Ending := do
  let ending := i.run fs time
  match ← writeChanges fs ending.files with
  | none => return ending
  | some (path, fault) => carryOut (fs.failWriting path fault) time i

/-- Carry out a command line and print what it prints; the result is the exit code. -/
def run (i : Invocation) : IO UInt32 := do
  let fs ← i.inputs.foldlM readInput { files := [] }
  let ending ← carryOut fs (← now) i
  for line in ending.out do IO.println line
  for line in ending.errorLines do IO.eprintln line
  return ending.code.toUInt32

end Program
end BinaryPatch

/-- The entry point. -/
def main (args : List String) : IO UInt32 := do
  match BinaryPatch.Arguments.parse args with
  | .ok invocation => BinaryPatch.Program.run invocation
  | .error .info =>
    for line in BinaryPatch.Program.usage do IO.println line
    return 0
  | .error .usage =>
    for line in BinaryPatch.Program.usage do IO.eprintln line
    return 2
