import PrefixMatching.Utf8

/-!
# Text that is safe to print

`sanitize` keeps the printable characters of a text and spells every other byte as `<HH>`. The
bytes of a character that is not kept are spelled one by one.
-/

namespace PrefixMatching
namespace Utf8

/-- A code point that Unicode reserves as no character. -/
def isNoncharacter (c : Int) : Bool := (0xFDD0 ≤ c && c ≤ 0xFDEF) || 0xFFFE ≤ c % 0x10000

/-- Whether an element is printed as it is: an ASCII character from space to tilde, or a longer
character outside U+008D to U+009F that is no noncharacter. Malformed bytes are elements of one
byte whose value lies past ASCII, so they are never kept. -/
def isPrintable (d : Decoded) : Bool :=
  if d.extra = 0 then 0x20 ≤ d.element && d.element ≤ 0x7E
  else (d.element ≤ 0x8C || 0x9F < d.element) && !isNoncharacter d.element

/-- A byte as two upper-case hexadecimal digits in angle brackets. -/
def escape (b : UInt8) : Bytes :=
  [byte '<', hexDigit (b.toNat / 16), hexDigit (b.toNat % 16), byte '>']

/-- The printable form of a text whose first `owed` bytes belong to a character already kept. -/
def sanitizeFrom : (owed : Nat) → Bytes → Bytes
  | _, [] => []
  | owed + 1, b :: rest => b :: sanitizeFrom owed rest
  | 0, b :: rest =>
    if isPrintable (decode b rest) then b :: sanitizeFrom (decode b rest).extra rest
    else escape b ++ sanitizeFrom 0 rest

/-- The printable form of a text. -/
def sanitize (s : Bytes) : Bytes := sanitizeFrom 0 s

end Utf8
end PrefixMatching
