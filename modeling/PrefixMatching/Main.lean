import PrefixMatching.Bench.Run
import PrefixMatching.Bench.Startup
import PrefixMatching.Log
import Std.Time.DateTime.Timestamp

/-!
# Command line

Runs the benchmark that a configuration describes and logs it on the standard error. A program
needs a reader of JSON besides this, which it passes to `CommandLine.exitCode`.

* `-c file` names the configuration, `bench.json` unless given
* `-p folder` names the folder of the configuration and the inputs
* `-r count` says how often each file is scanned
* `-d` leaves out details
* `-m message` puts a message before every entry about a file
-/

namespace PrefixMatching
namespace CommandLine

/-- The bytes of an argument. -/
def bytesOf (s : String) : Bytes := s.toUTF8.toList

/-- The path of a byte string, if it is text. -/
def pathOf? (path : Bytes) : Option String :=
  String.fromUTF8? (ByteArray.mk (beforeZero path).toArray)

/-- The current time in nanoseconds. -/
def now : IO Int := do
  pure (← Std.Time.Timestamp.now).toNanosecondsSinceUnixEpoch.toInt

/-- Writes to the log. -/
def put (text : Bytes) : IO Unit := do
  let stderr ← IO.getStderr
  stderr.write (ByteArray.mk text.toArray)
  stderr.flush

/-- Logs a message. -/
def log (message : Bytes) : IO Unit := Log.write .exact now put message

/-- Opens a file, if that is possible. -/
def opened? (path : String) : IO (Option IO.FS.Handle) := do
  try
    pure (some (← IO.FS.Handle.mk path .read))
  catch _ =>
    pure none

/-- The content of a file that can be opened. A failure to read from it is not caught. -/
def content? (path : Bytes) : IO (Option Bytes) := do
  match pathOf? path with
  | none => pure none
  | some path =>
    match ← opened? path with
    | none => pure none
    | some handle => pure (some (← handle.readBinToEnd).toList)

/-- The program around a run. -/
def host : Bench.Host IO := ⟨content?, log, do pure (← IO.monoNanosNow)⟩

/-- Scans the inputs of a plan: whether all of them could be read. -/
def run (plan : Bench.Plan) : IO Bool := plan.run host

/-- Runs a command line, with a reader of JSON. The exit code is zero if every input could be
read. -/
def exitCode {J : Type} (json : Bench.JsonReader J) (arguments : List String) : IO UInt32 := do
  let folder := bytesOf (← IO.currentDir).toString
  let code ← Bench.launch json folder content? log run (arguments.map bytesOf)
  pure (UInt32.ofNat code)

end CommandLine
end PrefixMatching
