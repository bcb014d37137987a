import PrefixMatching.Bytes
import PrefixMatching.Reading

/-!
# UTF-8 text

The reading of bytes as Unicode code points. A byte that does not start a well-formed character is
an element of its own, read as the replacement character, so every byte string can be read.

Well-formed means the shortest form of a scalar value: no overlong form, no surrogate, nothing
past U+10FFFF. `encode` is the standard encoder that this reading undoes.
-/

namespace PrefixMatching
namespace Utf8

/-- The code point that stands for malformed bytes. -/
def replacement : Nat := 0xFFFD

/-! ## Byte classes -/

/-- How many bytes a character with this first byte has, zero for a byte that starts none. -/
def leadWidth (b : UInt8) : Nat :=
  if b < 0x80 then 1
  else if b < 0xC0 then 0
  else if b < 0xE0 then 2
  else if b < 0xF0 then 3
  else if b < 0xF8 then 4
  else 0

/-- Whether a byte continues a character. -/
def isContinuation (b : UInt8) : Bool := 0x80 ≤ b && b < 0xC0

/-! ## Code points -/

/-- A Unicode scalar value: a code point that is no surrogate. -/
def isScalar (c : Nat) : Bool := c ≤ 0x10FFFF && !(0xD800 ≤ c && c ≤ 0xDFFF)

/-- The least code point whose shortest form has this many bytes. -/
def leastOfWidth : Nat → Nat
  | 2 => 0x80
  | 3 => 0x800
  | 4 => 0x10000
  | _ => 0

/-- Whether a value read from `width` bytes is a scalar value in its shortest form. -/
def isShortest (c width : Nat) : Bool := leastOfWidth width ≤ c && isScalar c

/-- The value bits of a first byte followed by the six value bits of each continuation byte. -/
def codePoint (lead : UInt8) (continuations : Bytes) : Nat :=
  continuations.foldl (fun c b => 64 * c + b.toNat % 64)
    (lead.toNat % Nat.pow 2 (7 - continuations.length))

/-! ## Decoding -/

/-- One byte that is no character. -/
def malformed : Decoded := ⟨replacement, 0⟩

/-- The element at the front of a text. -/
def decode (b : UInt8) (rest : Bytes) : Decoded :=
  match leadWidth b with
  | 0 => malformed
  | 1 => ⟨b.toNat, 0⟩
  | extra + 1 =>
    let continuations := rest.take extra
    if continuations.length = extra && continuations.all isContinuation
        && isShortest (codePoint b continuations) (extra + 1) then
      ⟨codePoint b continuations, extra⟩
    else malformed

/-- An element ends inside the text. -/
theorem extra_decode_le (b : UInt8) (rest : Bytes) : (decode b rest).extra ≤ rest.length := by
  unfold decode
  split
  · exact Nat.zero_le _
  · exact Nat.zero_le _
  · dsimp only
    split
    · rename_i h
      -- all continuation bytes are there, so the text is at least that long
      simp only [Bool.and_eq_true, decide_eq_true_eq, List.length_take] at h
      dsimp only
      omega
    · exact Nat.zero_le _

/-- The code point and width at an offset; past the end the replacement character of width zero. -/
def decodeAt (s : Bytes) (offset : Nat) : Int × Nat :=
  match s.drop offset with
  | [] => (replacement, 0)
  | b :: rest => ((decode b rest).element, (decode b rest).width)

/-! ## Encoding -/

/-- The shortest form of a scalar value. -/
def encode (c : Nat) : Bytes :=
  if c < 0x80 then [UInt8.ofNat c]
  else if c < 0x800 then [UInt8.ofNat (0xC0 + c / 64), UInt8.ofNat (0x80 + c % 64)]
  else if c < 0x10000 then
    [UInt8.ofNat (0xE0 + c / 4096), UInt8.ofNat (0x80 + c / 64 % 64), UInt8.ofNat (0x80 + c % 64)]
  else
    [UInt8.ofNat (0xF0 + c / 262144), UInt8.ofNat (0x80 + c / 4096 % 64),
      UInt8.ofNat (0x80 + c / 64 % 64), UInt8.ofNat (0x80 + c % 64)]

end Utf8

/-- Bytes read as UTF-8: the elements are code points. A character has at most four bytes, so one
that reaches past an offset starts at most three bytes before it. -/
def Reading.text : Reading UInt8 where
  decode := Utf8.decode
  lookBack := 3
  extra_le := Utf8.extra_decode_le

end PrefixMatching
