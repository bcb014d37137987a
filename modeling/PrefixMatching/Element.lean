import PrefixMatching.Bytes

/-!
# Classes of elements

Elements are integers, code points for text. The classes that scanners ask for hold ASCII
characters only, or all elements but some ASCII characters.
-/

namespace PrefixMatching
namespace Element

/-- The element of an ASCII character. -/
def ofChar (c : Char) : Int := c.toNat

/-- Whether an element is one of the bytes of a text. -/
def isOneOf (bytes : Bytes) (c : Int) : Bool := bytes.any fun b => (b.toNat : Int) = c

/-- Whether an element lies between two others, both included. -/
def isBetween (low high c : Int) : Bool := low ≤ c && c ≤ high

/-- `0` to `9`. -/
def isDigit : Int → Bool := isBetween 0x30 0x39

/-- `a` to `z`. -/
def isLower : Int → Bool := isBetween 0x61 0x7A

/-- `A` to `Z`. -/
def isUpper : Int → Bool := isBetween 0x41 0x5A

/-- A letter of either case. -/
def isLetter (c : Int) : Bool := isLower c || isUpper c

/-- A hexadecimal digit of either case. -/
def isHexDigit (c : Int) : Bool := isDigit c || isBetween 0x61 0x66 c || isBetween 0x41 0x46 c

/-- A space or a tab. -/
def isSpace (c : Int) : Bool := c = 0x20 || c = 0x09

/-- A space, a tab or a carriage return. -/
def isBlank (c : Int) : Bool := isSpace c || c = 0x0D

/-- A line feed. -/
def isLineFeed (c : Int) : Bool := c = 0x0A

end Element

/-! ## Descriptions of classes -/

/-- A class of elements put together from named ones. -/
inductive ElementClass where
  | all
  | none
  | digit
  | lower
  | upper
  | letter
  | space
  | between (low high : Int)
  | oneOf (elements : List Int)
  | not (c : ElementClass)
  | or (c d : ElementClass)
  | and (c d : ElementClass)
deriving Repr

namespace ElementClass

/-- Whether an element belongs to a class. -/
def holds : ElementClass → Int → Bool
  | .all, _ => true
  | .none, _ => false
  | .digit, e => Element.isDigit e
  | .lower, e => Element.isLower e
  | .upper, e => Element.isUpper e
  | .letter, e => Element.isLetter e
  | .space, e => Element.isSpace e
  | .between low high, e => Element.isBetween low high e
  | .oneOf elements, e => elements.contains e
  | .not c, e => !c.holds e
  | .or c d, e => c.holds e || d.holds e
  | .and c d, e => c.holds e && d.holds e

end ElementClass
end PrefixMatching
