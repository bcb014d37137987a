import PrefixMatching.Bench.Tally

/-!
# Scanning with a log

A scan goes through the lines of a file with the counts so far. With details it logs what it
rejects as soon as it meets it. The tally of the file is what such a scan comes to.
-/

namespace PrefixMatching
namespace Bench

variable {m : Type → Type} [Monad m]

/-- Counts a rejection and, with details, logs it. -/
def reject (log : Bytes → m Unit) (details : Bool) (stats : Stats) (rejection : Rejection) :
    m Stats := do
  if details then log rejection.message
  pure { stats with rejected := stats.rejected + 1 }

/-- Scans a line that should be a header. -/
def scanHeaderLine (log : Bytes → m Unit) (details : Bool) (stats : Stats) (line : Bytes) :
    m Stats :=
  match Header.ofLine? line with
  | none => reject log details stats (.header line)
  | some header =>
    let stats := { stats with accepted := stats.accepted + 1 }
    match Header.items? header.value with
    | none => pure stats
    | some elements =>
      pure { stats with listElements := stats.listElements + elements.length }

/-- Scans a token that should be a value. -/
def scanToken (log : Bytes → m Unit) (details : Bool) (stats : Stats) (token : Bytes) : m Stats :=
  match Value.ofToken? token with
  | none => reject log details stats (.value token)
  | some value =>
    let stats := { stats with accepted := stats.accepted + 1 }
    match value with
    | .color _ => pure { stats with colors := stats.colors + 1 }
    | .integer _ => pure { stats with integers := stats.integers + 1 }
    | .floating _ => pure { stats with floats := stats.floats + 1 }

/-- Scans a line. -/
def scanLine (log : Bytes → m Unit) (details : Bool) (scanner : Scanner) (stats : Stats)
    (line : Bytes) : m Stats :=
  let stats := { stats with lines := stats.lines + 1 }
  if Tally.isBlankLine line then pure stats
  else
    match scanner with
    | .header => scanHeaderLine log details stats line
    | .value => (Splitter.tokens.pieces line).foldlM (scanToken log details) stats

/-- Scans the content of a file. -/
def scan (log : Bytes → m Unit) (details : Bool) (scanner : Scanner) (content : Bytes) :
    m Stats :=
  (Splitter.lines.pieces content).foldlM (scanLine log details scanner) {}

end Bench
end PrefixMatching
