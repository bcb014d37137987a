import PrefixMatching.Bytes
import PrefixMatching.Calendar

/-!
# Time stamps of log lines

An instant is given in nanoseconds since 1970-01-01T00:00:00Z and written to the microsecond below
it, as `yyyy-MM-dd hh:mm:ss.uuuuuu`. The clock counts in signed numbers of 64 bits.
-/

namespace PrefixMatching

/-- How signed numbers of 64 bits are computed with. A result that fits is exact. What becomes of
one that does not fit is up to the machine and the compiler. -/
structure SignedArithmetic where
  result : Int → Int
  result_of_fits : ∀ {n : Int}, Int64.minValue.toInt ≤ n → n ≤ Int64.maxValue.toInt → result n = n

/-- Arithmetic without a limit, as where conversions cancel before anything is computed. -/
def SignedArithmetic.exact : SignedArithmetic := ⟨id, fun _ _ => rfl⟩

/-- Arithmetic that keeps the last 64 bits of a result, in two's complement. -/
def SignedArithmetic.wrapping : SignedArithmetic where
  result n := (Int64.ofInt n).toInt
  result_of_fits hlow hhigh := Int64.toInt_ofInt_of_le hlow (Int.lt_add_one_of_le hhigh)

/-- A date with a time of day. -/
structure Timestamp where
  date : Date
  hour : Nat
  minute : Nat
  second : Nat
  microsecond : Nat
deriving DecidableEq, Repr

namespace Timestamp

/-- The microsecond that an instant falls into. -/
def ofNanoseconds (ns : Int) : Timestamp :=
  let microseconds := ns / 1000
  let seconds := microseconds / 1000000
  let timeOfDay := (seconds % 86400).toNat
  { date := .ofDays (seconds / 86400)
    hour := timeOfDay / 3600
    minute := timeOfDay / 60 % 60
    second := timeOfDay % 60
    microsecond := (microseconds % 1000000).toNat }

/-- The date and the time of day of a time stamp. -/
def civil (t : Timestamp) : Bytes :=
  paddedDecimal 4 t.date.year.toNat ++ ascii "-" ++ paddedDecimal 2 t.date.month ++ ascii "-" ++
    paddedDecimal 2 t.date.day ++ ascii " " ++ paddedDecimal 2 t.hour ++ ascii ":" ++
    paddedDecimal 2 t.minute ++ ascii ":" ++ paddedDecimal 2 t.second

/-- A time stamp as text. -/
def text (t : Timestamp) : Bytes := t.civil ++ ascii "." ++ paddedDecimal 6 t.microsecond

/-! ## From the clock -/

/-- Whether a year, counted from 1900, is a number of 32 bits. -/
def fitsYear (year : Int) : Bool :=
  Int32.minValue.toInt ≤ year - 1900 && year - 1900 ≤ Int32.maxValue.toInt

/-- How many bytes there are for the date and the time of day, with a zero byte behind them. -/
def civilCapacity : Nat := 32

/-- An instant as text. There is none if its year or the text for its second does not fit. The
microseconds of the second are appended in decimal, with zeros in front where digits are missing.

The second is converted back to nanoseconds, once to find the microseconds in it and once for its
date. The first instants of the clock lie in a second that begins before the clock does, and there
the text is what the arithmetic makes of that. -/
def format? (arithmetic : SignedArithmetic) (ns : Int) : Option Bytes :=
  let second := arithmetic.result (1000000000 * (ns / 1000000000))
  let fraction := signedDecimal ((arithmetic.result (ns - second)).tdiv 1000)
  let t := ofNanoseconds (1000000000 * second.tdiv 1000000000)
  if fitsYear t.date.year && t.civil.length < civilCapacity then
    some (t.civil ++ ascii "." ++ List.replicate (6 - min 6 fraction.length) (byte '0') ++ fraction)
  else none

end Timestamp
end PrefixMatching
