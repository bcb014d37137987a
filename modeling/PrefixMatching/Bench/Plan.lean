import PrefixMatching.Bench.Config
import PrefixMatching.Bench.Path

/-!
# Plans and their log

A plan says what a run has to do. Besides what a scan rejects, a run logs entries, each with its
message: what the plan is, what became of each input, and the totals of all inputs.
-/

namespace PrefixMatching
namespace Bench

/-- What a run is told to do. -/
structure Plan where
  folder : Bytes
  configFile : Bytes
  repetitions : Nat
  details : Bool
  message : Bytes
  inputs : List Input
deriving DecidableEq, Repr

/-- Times as they are written to the log. -/
structure Timing where
  milliseconds : Bytes
  linesPerMillisecond : Bytes
deriving DecidableEq, Repr

/-- The place of an index in a list, counted from one in 64 bits. -/
def ordinal (index : Nat) : Nat := (index + 1) % UInt64.size

/-- The text before messages about an input. -/
def caption (message : Bytes) (inputs index : Nat) : Bytes :=
  if message.isEmpty then []
  else
    ascii "[" ++ message ++ ascii " " ++ decimal (ordinal index) ++ ascii "/" ++
      decimal inputs ++ ascii "] "

/-! ## Entries of the log -/

/-- Sums over all inputs. -/
structure Totals where
  files : Nat := 0
  failedOpens : Nat := 0
  lines : Nat := 0
deriving DecidableEq, Repr

namespace Totals

/-- The share of a file that cannot be opened. -/
def unopened : Totals := { failedOpens := 1 }

/-- The share of a file that was read. -/
def read (stats : Stats) : Totals := { files := 1, lines := stats.lines }

instance : Add Totals where
  add a b := ⟨a.files + b.files, a.failedOpens + b.failedOpens, a.lines + b.lines⟩

end Totals

/-- An entry of the log. -/
inductive Entry where
  | folder (folder : Bytes)
  | configFile (file : Bytes)
  | repetitions (n : Nat)
  | message (message : Bytes)
  | inputCount (n : Nat)
  | readError (caption path : Bytes)
  | scanning (caption file : Bytes)
  | summary (caption : Bytes) (stats : Stats) (timing : Timing)
  | totals (totals : Totals) (milliseconds : Bytes)
deriving DecidableEq, Repr

/-- The message of an entry. -/
def Entry.text : Entry → Bytes
  | .folder path => ascii "base_folder: " ++ path
  | .configFile path => ascii "config_file: " ++ path
  | .repetitions n => ascii "repeat: " ++ decimal n
  | .message note => ascii "message: " ++ note
  | .inputCount n => ascii "number of inputs: " ++ decimal n
  | .readError caption path => caption ++ ascii "File read error: " ++ path
  | .scanning caption file => caption ++ ascii "Scanning file: " ++ file
  | .summary caption stats timing =>
    caption ++ ascii "Time: " ++ timing.milliseconds ++ ascii " ms, lines: " ++
      decimal stats.lines ++ ascii ", accepted: " ++ decimal stats.accepted ++
      ascii ", rejected: " ++ decimal stats.rejected ++ ascii ", line/ms: " ++
      timing.linesPerMillisecond
  | .totals sums milliseconds =>
    ascii "Files: " ++ decimal sums.files ++ ascii ", failed file opens: " ++
      decimal sums.failedOpens ++ ascii ", lines: " ++ decimal sums.lines ++
      ascii ", benchmark time: " ++ milliseconds ++ ascii " ms"

/-! ## Entries of a plan -/

namespace Plan

/-- The text before messages about the input with this index. -/
def captionOf (plan : Plan) (index : Nat) : Bytes :=
  caption plan.message plan.inputs.length index

/-- Entries that are written with details only. -/
def inDetail (plan : Plan) (entries : List Entry) : List Entry :=
  if plan.details then entries else []

/-- The entries that say what a run is told to do. -/
def heading (plan : Plan) : List Entry :=
  plan.inDetail
    [.folder plan.folder, .configFile plan.configFile, .repetitions plan.repetitions,
      .message plan.message, .inputCount plan.inputs.length]

/-- What is logged about a file that cannot be opened. -/
def unopened (plan : Plan) (index : Nat) (input : Input) : List Entry :=
  [.readError (plan.captionOf index) (joinPath plan.folder input.file)]

/-- What is logged about a file after its scans were timed. -/
def closing (plan : Plan) (index : Nat) (stats : Stats) (timing : Timing) : List Entry :=
  plan.inDetail [.summary (plan.captionOf index) stats timing]

end Plan
end Bench
end PrefixMatching
