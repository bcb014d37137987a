import PrefixMatching.Binary64
import PrefixMatching.Choice
import PrefixMatching.Element
import PrefixMatching.Literal
import PrefixMatching.Scan
import PrefixMatching.Utf8

/-!
# Value tokens

A token is a color (`#rrggbb` or `#rgb`), an unsigned integer or a floating-point number. Its form
is settled by a choice between four branches, each of which must take the whole token; then the
part that the branch matched is decoded.
-/

namespace PrefixMatching

/-- A color by its components. -/
structure Color where
  red : UInt8
  green : UInt8
  blue : UInt8
deriving DecidableEq, Repr

/-- What a token denotes. -/
inductive Value where
  | color (color : Color)
  /-- An integer below `2^64`. -/
  | integer (value : Nat)
  | floating (value : Binary64)
deriving DecidableEq, Repr

namespace Color

/-- The component with these two hexadecimal digits. -/
def component (high low : UInt8) : UInt8 := UInt8.ofNat (16 * hexValue high + hexValue low)

/-- The color of six hexadecimal digits. -/
def ofSixDigits? : Bytes → Option Color
  | [r₁, r₂, g₁, g₂, b₁, b₂] => some ⟨component r₁ r₂, component g₁ g₂, component b₁ b₂⟩
  | _ => none

/-- The color of three hexadecimal digits, each of which stands for two equal ones. -/
def ofThreeDigits? : Bytes → Option Color
  | [r, g, b] => some ⟨component r r, component g g, component b b⟩
  | _ => none

end Color

namespace Value

/-! ## Forms of tokens -/

/-- The form of a token. -/
inductive TokenForm where
  | sixDigitColor
  | threeDigitColor
  | integer
  | floating
deriving DecidableEq, Repr

open Reading (text)

/-- Keeps a match that took the whole token. -/
def exhausting {μ : Type} (x : Match μ Bytes) : Match μ Bytes :=
  x.require (m := Id) fun _ rest => rest.isEmpty

/-- The number sign of a color. Where the token has ended it is cut down to nothing, and no digits
follow. -/
def numberSign (start : Match Bytes Bytes) : Match Bytes Bytes :=
  start.onRest (text.literal (ascii "#") .cut)

/-- A number sign and six hexadecimal digits. -/
def asSixDigitColor (start : Match Bytes Bytes) : Match (Bytes × TokenForm) Bytes :=
  let digits := ((numberSign start).onRest (text.takeExactly 6 Element.isHexDigit)).outcome
  exhausting (digits.tag .sixDigitColor)

/-- A number sign and three hexadecimal digits. -/
def asThreeDigitColor (start : Match Bytes Bytes) : Match (Bytes × TokenForm) Bytes :=
  let digits := ((numberSign start).onRest (text.takeExactly 3 Element.isHexDigit)).outcome
  exhausting (digits.tag .threeDigitColor)

/-- A run of digits. -/
def digitRun {μ : Type} (start : Match μ Bytes) : Match Bytes Bytes :=
  (start.onRest (text.takeAtLeast 1 Element.isDigit)).outcome

/-- Nothing but digits. -/
def asInteger (start : Match Bytes Bytes) : Match (Bytes × TokenForm) Bytes :=
  exhausting ((digitRun start).tag .integer)

/-- A mark of either case, a sign that may be missing, and digits. -/
def exponentPart (s : Bytes) : Match Bytes Bytes :=
  let mark := text.anyLiteral [ascii "e", ascii "E"] .whole s
  let sign := mark.onRest (text.anyLiteral [ascii "+", ascii "-"] .whole)
  digitRun (if sign.isFailed then mark.dropMatched else sign.dropMatched)

/-- A point, digits, and an exponent that may be missing. -/
def fractionPart (s : Bytes) : Match Bytes Bytes :=
  (digitRun (text.literal (ascii ".") .whole s)).attempt (m := Id) fun _ rest =>
    exponentPart rest

/-- Digits followed by the tail of a floating-point number, which the match does not keep. -/
def asFloating (start : Match Bytes Bytes) : Match (Bytes × TokenForm) Bytes :=
  let digits : Match Bytes Bytes :=
    (digitRun start).skipping (m := Id) fun _ rest => fractionPart rest
  exhausting (digits.tag .floating)

/-- The branches of the choice, in order. -/
def branches : List (Match Bytes Bytes → Match (Bytes × TokenForm) Bytes) :=
  [asSixDigitColor, asThreeDigitColor, asInteger, asFloating]

/-- The form of a token and the part that shows it. -/
def classify (token : Bytes) : Match (Bytes × TokenForm) Bytes :=
  Choice.among (m := Id) (.start token) branches

/-! ## Numbers -/

/-- The integer of a run of digits, if it is below `2^64`. -/
def integer? (digits : Bytes) : Option Nat :=
  if digitsValue digits < UInt64.size then some (digitsValue digits) else none

/-- Whether a byte is a decimal digit. -/
def isDigitByte (b : UInt8) : Bool := Element.isDigit b.toNat

/-- The exponent after its mark. -/
def exponentValue : Bytes → Int
  | [] => 0
  | sign :: digits =>
    if sign = byte '-' then -(digitsValue digits : Int)
    else if sign = byte '+' then digitsValue digits
    else digitsValue (sign :: digits)

/-- The decimal that a floating-point token denotes. -/
def decimalOf (token : Bytes) : Decimal :=
  let integral := token.takeWhile isDigitByte
  let tail := (token.dropWhile isDigitByte).drop 1
  let fraction := tail.takeWhile isDigitByte
  let exponent := exponentValue ((tail.dropWhile isDigitByte).drop 1)
  ⟨digitsValue (integral ++ fraction), exponent - fraction.length⟩

/-! ## Denotation -/

/-- What a token of a known form denotes. -/
def denoted? (token matched : Bytes) : TokenForm → Option Value
  | .sixDigitColor => (Color.ofSixDigits? matched).map .color
  | .threeDigitColor => (Color.ofThreeDigits? matched).map .color
  | .integer => (integer? matched).map .integer
  | .floating => (Binary64.ofDecimal? (decimalOf token)).map .floating

/-- What a token denotes. -/
def ofToken? (token : Bytes) : Option Value :=
  match classify token with
  | .ok (some (matched, form)) _ => denoted? token matched form
  | _ => none

end Value
end PrefixMatching
