import PrefixMatching.Bench.Config
import PrefixMatching.Bench.Files
import PrefixMatching.Bench.Options
import PrefixMatching.Bench.Path
import PrefixMatching.Bench.Plan
import PrefixMatching.Bench.Run
import PrefixMatching.Bench.Scan
import PrefixMatching.Bench.Startup
import PrefixMatching.Bench.Tally
import PrefixMatching.Binary64
import PrefixMatching.Bytes
import PrefixMatching.Calendar
import PrefixMatching.Choice
import PrefixMatching.Collector
import PrefixMatching.Count
import PrefixMatching.Element
import PrefixMatching.Header
import PrefixMatching.Literal
import PrefixMatching.Log
import PrefixMatching.Log.Timestamp
import PrefixMatching.Main
import PrefixMatching.Match
import PrefixMatching.Match.Failure
import PrefixMatching.Program
import PrefixMatching.Program.Condition
import PrefixMatching.Program.Journal
import PrefixMatching.Reading
import PrefixMatching.Scan
import PrefixMatching.Splitter
import PrefixMatching.Utf8
import PrefixMatching.Utf8.Sanitize
import PrefixMatching.Value
import PrefixMatching.Proofs.Stops
import PrefixMatching.Proofs.Utf8.Characters
import PrefixMatching.Proofs.Utf8.Boundaries
import PrefixMatching.Proofs.Cuts
import PrefixMatching.Proofs.Outcomes
import PrefixMatching.Proofs.Segments
import PrefixMatching.Proofs.Program.Provenance
import PrefixMatching.Proofs.Accumulation
import PrefixMatching.Proofs.Program.Failure
import PrefixMatching.Proofs.Scans
import PrefixMatching.Proofs.Literals
import PrefixMatching.Proofs.Utf8.Ascii
import PrefixMatching.Proofs.Erasure
import PrefixMatching.Proofs.Program.Erasure
import PrefixMatching.Proofs.Log
import PrefixMatching.Proofs.Splitter
import PrefixMatching.Proofs.Bench.Scan
import PrefixMatching.Proofs.Bench.Startup
import PrefixMatching.Proofs.Bench.Run
import PrefixMatching.Proofs.Counts
import PrefixMatching.Proofs.Utf8.Runs
import PrefixMatching.Proofs.Header.Items
import PrefixMatching.Proofs.Choice
import PrefixMatching.Proofs.Choice.FirstMatch
import PrefixMatching.Proofs.Value.Grammar
import PrefixMatching.Proofs.Binary64.Patterns
import PrefixMatching.Proofs.Binary64.Rounding
import PrefixMatching.Proofs.Value.Tokens
import PrefixMatching.Proofs.Value.Floats
import PrefixMatching.Proofs.Bench.Options
import PrefixMatching.Proofs.Calendar
import PrefixMatching.Proofs.Decimals
import PrefixMatching.Proofs.Log.Controls
import PrefixMatching.Proofs.Log.Timestamp
import PrefixMatching.Proofs.Header.Line
import PrefixMatching.Proofs.Splitter.Lines
import PrefixMatching.Proofs.Scans.Resumption
import PrefixMatching.Proofs.Splitter.Tokens
import PrefixMatching.Proofs.Scans.Passes
import PrefixMatching.Proofs.Access
