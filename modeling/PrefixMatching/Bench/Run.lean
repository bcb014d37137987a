import PrefixMatching.Bench.Files
import PrefixMatching.Bench.Plan
import PrefixMatching.Bench.Scan
import PrefixMatching.Binary64

/-!
# Running a plan

A run goes through the inputs of a plan. It reads a file, scans it with the log and then, while the
clock is read before and after, as often as the plan says without the log. Counts and times are
summed up on the way.

A run also prints a JSON document with the configuration, an object for each input and the totals.
That document is left out here: this module is about what a run logs and what it returns, and
neither depends on what is printed.
-/

namespace PrefixMatching
namespace Bench

/-- What a run needs from the program around it. -/
structure Host (m : Type → Type) where
  /-- The content of the file at a path, if the path can be opened. A failure to read from what has
  been opened is an exception of `m`. A run does not handle it, so it ends there. -/
  content? : Bytes → m (Option Bytes)
  /-- Logs a message. -/
  log : Bytes → m Unit
  /-- The time in nanoseconds. -/
  clock : m Int

/-- What a run does that keeps its log, also where a failure to read ends it. -/
abbrev Recorded (n : Type → Type) : Type → Type := ExceptT ReadFailure (StateT (List Bytes) n)

/-- A host that keeps what is logged, where `files` tells what comes of opening a path and reading
from it. -/
def Host.recording {n : Type → Type} [Monad n] (files : Bytes → Except ReadFailure (Option Bytes))
    (clock : n Int) : Host (Recorded n) where
  content? path := ExceptT.mk (pure (files path))
  log message := ExceptT.lift (modify (· ++ [message]))
  clock := ExceptT.lift (StateT.lift clock)

/-! ## Times -/

/-- A quotient of two numbers in binary64, with six decimal places. It is zero where the divisor
is. -/
def sixPlaces (num den : Nat) : Bytes :=
  let quotient := Binary64.nearestPattern (Binary64.unitsOf num) (Binary64.unitsOf den)
  let scaled :=
    if den = 0 then 0
    else Binary64.roundHalfEven (Binary64.units quotient * 1000000) (Nat.pow 2 1074)
  decimal (scaled / 1000000) ++ ascii "." ++ paddedDecimal 6 scaled

/-- The times of a file with this many lines, whose repeated scans took so long. The lines of all
scans are counted in 64 bits. -/
def Plan.timing (plan : Plan) (lines : Nat) (milliseconds : Int) : Timing where
  milliseconds := signedDecimal milliseconds
  linesPerMillisecond :=
    (if milliseconds < 0 then ascii "-" else []) ++
      sixPlaces (lines * plan.repetitions % UInt64.size) milliseconds.natAbs

/-! ## Scanning and logging -/

section Run

variable {m : Type → Type} [Monad m]

/-- Logs entries. -/
def Host.logEntries (host : Host m) (entries : List Entry) : m Unit :=
  entries.forM fun entry => host.log entry.text

/-- Scans a file again and again, without the log. -/
@[specialize]
def rescanning (host : Host m) (scanner : Scanner) (content : Bytes) (stats : Stats) :
    (repetitions : Nat) → m Stats
  | 0 => pure stats
  | repetitions + 1 => do
    let stats ← scan host.log false scanner content
    rescanning host scanner content stats repetitions

namespace Plan

/-- Scans one input and logs it: its share of the totals and how many milliseconds it took. -/
def scanInput (plan : Plan) (host : Host m) (index : Nat) (input : Input) : m (Totals × Int) := do
  match ← host.content? (joinPath plan.folder input.file) with
  | none =>
    host.logEntries (plan.unopened index input)
    pure (.unopened, 0)
  | some content =>
    host.logEntries [.scanning (plan.captionOf index) input.file]
    -- rejections are logged before the clock starts
    let first ← scan host.log plan.details input.scanner content
    let begun ← host.clock
    let stats ← rescanning host input.scanner content first plan.repetitions
    let time := ((← host.clock) - begun).tdiv 1000000
    host.logEntries (plan.closing index stats (plan.timing stats.lines time))
    pure (.read stats, time)

/-- Scans the inputs from an index on, on top of what the earlier ones came to. -/
def scanInputs (plan : Plan) (host : Host m) :
    (index : Nat) → (totals : Totals) → (time : Int) → List Input → m (Totals × Int)
  | _, totals, time, [] => pure (totals, time)
  | index, totals, time, input :: inputs => do
    let (share, milliseconds) ← plan.scanInput host index input
    plan.scanInputs host (index + 1) (totals + share) (time + milliseconds) inputs

/-- Scans the inputs of a plan: whether all of them could be read. -/
def run (plan : Plan) (host : Host m) : m Bool := do
  host.logEntries plan.heading
  let (totals, time) ← plan.scanInputs host 0 {} 0 plan.inputs
  host.logEntries (plan.inDetail [.totals totals (signedDecimal time)])
  pure (totals.failedOpens = 0)

end Plan
end Run

end Bench
end PrefixMatching
