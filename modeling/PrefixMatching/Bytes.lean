/-!
# Byte strings

Texts are lists of bytes, so malformed UTF-8 is an ordinary value. This module spells ASCII texts
and numbers as bytes and reads digits back.
-/

namespace PrefixMatching

/-- A byte string. -/
abbrev Bytes := List UInt8

/-- The byte of an ASCII character. -/
def byte (c : Char) : UInt8 := UInt8.ofNat c.toNat

/-- The bytes of an ASCII text. -/
def ascii (s : String) : Bytes := s.toList.map byte

/-- What comes before the first zero byte: all that a reader of zero-terminated text sees. -/
def beforeZero (s : Bytes) : Bytes := s.takeWhile fun b => b ≠ 0

/-! ## Numbers as text -/

/-- The byte of a decimal digit. -/
def digit (n : Nat) : UInt8 := UInt8.ofNat (0x30 + n)

/-- A number in decimal, without leading zeros. -/
def decimal (n : Nat) : Bytes := (Nat.toDigits 10 n).map byte

/-- An integer in decimal, with a minus sign if it is negative. -/
def signedDecimal (n : Int) : Bytes :=
  if n < 0 then ascii "-" ++ decimal n.natAbs else decimal n.natAbs

/-- The last `width` decimal digits of a number, with leading zeros. -/
def paddedDecimal : (width n : Nat) → Bytes
  | 0, _ => []
  | width + 1, n => paddedDecimal width (n / 10) ++ [digit (n % 10)]

/-- The byte of a hexadecimal digit, upper case. -/
def hexDigit (n : Nat) : UInt8 := UInt8.ofNat (if n < 10 then 0x30 + n else 0x41 + (n - 10))

/-! ## Digits as numbers -/

/-- The number that a run of decimal digits denotes. -/
def digitsValue (digits : Bytes) : Nat :=
  digits.foldl (fun n b => 10 * n + (b.toNat - 0x30)) 0

/-- The value of a hexadecimal digit of either case. -/
def hexValue (b : UInt8) : Nat :=
  if b ≤ 0x39 then b.toNat - 0x30
  else if 0x61 ≤ b then b.toNat - 0x61 + 10
  else b.toNat - 0x41 + 10

end PrefixMatching
