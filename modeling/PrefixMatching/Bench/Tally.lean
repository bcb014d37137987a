import PrefixMatching.Header
import PrefixMatching.Log
import PrefixMatching.Splitter
import PrefixMatching.Value

/-!
# What a scanner makes of a file

A file is scanned line by line. The header scanner takes a line as a whole, the value scanner
takes its tokens. A tally counts what was recognized and keeps what was not.
-/

namespace PrefixMatching
namespace Bench

/-- Which scanner a file is scanned with. -/
inductive Scanner where
  | header
  | value
deriving DecidableEq, Repr

/-- Counts of what a scan met. -/
structure Stats where
  lines : Nat := 0
  /-- Recognized lines or tokens. -/
  accepted : Nat := 0
  /-- Lines or tokens that were not recognized. -/
  rejected : Nat := 0
  /-- Elements of the values that are lists. -/
  listElements : Nat := 0
  colors : Nat := 0
  integers : Nat := 0
  floats : Nat := 0
deriving DecidableEq, Repr

instance : Add Stats where
  add a b :=
    { lines := a.lines + b.lines
      accepted := a.accepted + b.accepted
      rejected := a.rejected + b.rejected
      listElements := a.listElements + b.listElements
      colors := a.colors + b.colors
      integers := a.integers + b.integers
      floats := a.floats + b.floats }

/-- A line or token that a scanner did not recognize. -/
inductive Rejection where
  | header (line : Bytes)
  | value (token : Bytes)
deriving DecidableEq, Repr

/-- What is logged about a rejection. -/
def Rejection.message : Rejection → Bytes
  | .header line => Log.untrusted (ascii "Rejected header: ") line
  | .value token => Log.untrusted (ascii "Rejected value: ") token

/-- The counts of a scan and what it rejected, in order. -/
structure Tally where
  stats : Stats := {}
  rejections : List Rejection := []
deriving DecidableEq, Repr

instance : Add Tally where
  add a b := ⟨a.stats + b.stats, a.rejections ++ b.rejections⟩

namespace Tally

/-- The tally of pieces that are tallied one by one. -/
def sum (tally : Bytes → Tally) : List Bytes → Tally
  | [] => {}
  | piece :: pieces => tally piece + sum tally pieces

/-- The tally of a line that should be a header. -/
def ofHeaderLine (line : Bytes) : Tally :=
  match Header.ofLine? line with
  | none => { stats := { rejected := 1 }, rejections := [.header line] }
  | some header =>
    let elements := (Header.items? header.value).getD []
    { stats := { accepted := 1, listElements := elements.length } }

/-- The tally of a token that should be a value. -/
def ofToken (token : Bytes) : Tally :=
  match Value.ofToken? token with
  | none => { stats := { rejected := 1 }, rejections := [.value token] }
  | some (.color _) => { stats := { accepted := 1, colors := 1 } }
  | some (.integer _) => { stats := { accepted := 1, integers := 1 } }
  | some (.floating _) => { stats := { accepted := 1, floats := 1 } }

/-- Whether a line holds nothing but blanks. -/
def isBlankLine (line : Bytes) : Bool :=
  match (Reading.text.takeWhile Element.isBlank line).outcome with
  | .ok _ rest => rest.isEmpty
  | .failed => false

/-- The tally of what a line holds. -/
def ofLineContent (scanner : Scanner) (line : Bytes) : Tally :=
  if isBlankLine line then {}
  else
    match scanner with
    | .header => ofHeaderLine line
    | .value => sum ofToken (Splitter.tokens.pieces line)

/-- The tally of a line. -/
def ofLine (scanner : Scanner) (line : Bytes) : Tally :=
  { stats := { lines := 1 } } + ofLineContent scanner line

/-- The tally of a file's content. -/
def ofContent (scanner : Scanner) (content : Bytes) : Tally :=
  sum (ofLine scanner) (Splitter.lines.pieces content)

/-- The messages about rejections, in order. -/
def messages (tally : Tally) : List Bytes := tally.rejections.map Rejection.message

end Tally
end Bench
end PrefixMatching
