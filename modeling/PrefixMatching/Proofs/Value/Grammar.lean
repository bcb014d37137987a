import Mathlib.Data.Nat.Digits.Defs
import Mathlib.Data.Set.List
import PrefixMatching.Proofs.Decimals
import PrefixMatching.Value

/-!
# The grammar of tokens

Tokens as syntax trees: digits of both kinds are numbers below their base, a run of digits is not
empty, and an exponent has its mark, its sign and its digits. A tree has a text and a value
(`Token.text`, `Token.value?`), and neither mentions how texts are scanned.

The form of a tree can be read off its text (`form_eq_formOf`): colors begin with a number sign and
differ in length, and of the others only floating-point numbers have a point. So no text has trees
of two forms.
-/

namespace PrefixMatching
namespace Value

/-! ## Digits -/

/-- A hexadecimal digit, in lower case or not where it is a letter. -/
structure HexDigit where
  value : Fin 16
  lower : Bool

namespace HexDigit

/-- The byte of a hexadecimal digit. -/
def byte (d : HexDigit) : UInt8 :=
  if d.lower && 10 ≤ d.value then UInt8.ofNat (0x61 + (d.value - 10 : Nat)) else hexDigit d.value

theorem hexValue_byte (d : HexDigit) : hexValue d.byte = d.value := by
  have hall : ∀ value lower, hexValue (byte ⟨value, lower⟩) = value := by decide
  exact hall d.value d.lower

theorem isHexDigit_byte (d : HexDigit) : Element.isHexDigit d.byte.toNat = true := by
  have hall : ∀ value lower, Element.isHexDigit (byte ⟨value, lower⟩).toNat = true := by decide
  exact hall d.value d.lower

/-- Every byte of the class is the byte of a digit. -/
theorem mem_range_byte {b : UInt8} (h : Element.isHexDigit b.toNat = true) :
    b ∈ Set.range byte := by
  simp only [Element.isHexDigit, Element.isDigit, Element.isBetween, Bool.or_eq_true,
    Bool.and_eq_true, decide_eq_true_eq] at h
  have hbyte : ∀ n : Nat, n = b.toNat → UInt8.ofNat n = b := by
    rintro _ rfl
    exact UInt8.ofNat_toNat
  rcases h with (⟨hlow, hhigh⟩ | ⟨hlow, hhigh⟩) | ⟨hlow, hhigh⟩
  · refine ⟨⟨⟨b.toNat - 0x30, by omega⟩, false⟩, ?_⟩
    have hdecimal : b.toNat - 0x30 < 10 := by omega
    simp only [byte, Bool.false_and, hexDigit, if_pos hdecimal]
    exact hbyte _ (by omega)
  · refine ⟨⟨⟨b.toNat - 0x61 + 10, by omega⟩, true⟩, ?_⟩
    have hletter : (10 : Fin 16) ≤ ⟨b.toNat - 0x61 + 10, by omega⟩ := by
      rw [Fin.le_def]
      exact Nat.le_add_left 10 _
    simp only [byte, Bool.true_and, hletter, decide_true, if_true]
    exact hbyte _ (by omega)
  · refine ⟨⟨⟨b.toNat - 0x41 + 10, by omega⟩, false⟩, ?_⟩
    have hletter : ¬ b.toNat - 0x41 + 10 < 10 := by omega
    simp only [byte, Bool.false_and, hexDigit, if_neg hletter]
    exact hbyte _ (by omega)

end HexDigit

/-- A run of decimal digits. -/
structure Digits where
  list : List (Fin 10)
  ne_nil : list ≠ []

/-- The text of decimal digits. -/
def digitsText (digits : List (Fin 10)) : Bytes := digits.map fun d : Fin 10 => digit d

/-- The number that decimal digits denote, the most significant one first. -/
def digitsNumber (digits : List (Fin 10)) : Nat := Nat.ofDigits 10 (digits.reverse.map Fin.val)

theorem toNat_digit (d : Fin 10) : (digit d).toNat = 0x30 + d := toNat_digit_of_lt d.isLt

theorem isDigitByte_digit (d : Fin 10) : isDigitByte (digit d) = true := by
  have hall : ∀ d : Fin 10, isDigitByte (digit d) = true := by decide
  exact hall d

theorem isDigitByte_of_mem {digits : List (Fin 10)} {b : UInt8} (h : b ∈ digitsText digits) :
    isDigitByte b = true := by
  obtain ⟨d, -, rfl⟩ := List.mem_map.mp h
  exact isDigitByte_digit d

/-- Every byte of the class is the byte of a digit. -/
theorem mem_range_digit {b : UInt8} (h : isDigitByte b = true) :
    b ∈ Set.range fun d : Fin 10 => digit d := by
  simp only [isDigitByte, Element.isDigit, Element.isBetween, Bool.and_eq_true,
    decide_eq_true_eq] at h
  obtain ⟨hlow, hhigh⟩ := h
  refine ⟨⟨b.toNat - 0x30, by omega⟩, ?_⟩
  have hsum : 0x30 + (b.toNat - 0x30) = b.toNat := by omega
  simp only [digit, hsum, UInt8.ofNat_toNat]

/-- A run of bytes of the class is the text of digits. -/
theorem exists_digitsText_eq {s : Bytes} (hne : s ≠ []) (h : ∀ b ∈ s, isDigitByte b = true) :
    ∃ digits : Digits, digitsText digits.list = s := by
  have hrange : s ∈ Set.range (List.map fun d : Fin 10 => digit d) := by
    rw [Set.range_list_map]
    exact fun b hb => mem_range_digit (h b hb)
  obtain ⟨list, rfl⟩ := hrange
  exact ⟨⟨list, fun hnil => hne (by rw [hnil]; rfl)⟩, rfl⟩

/-- The digits of a number, read from the front, give the number. -/
theorem digitsValue_digitsText (digits : List (Fin 10)) :
    digitsValue (digitsText digits) = digitsNumber digits := by
  have hfoldl : ∀ start, (digitsText digits).foldl (fun n b => 10 * n + (b.toNat - 0x30)) start =
      digits.foldl (fun n (d : Fin 10) => 10 * n + d.val) start := by
    intro start
    rw [digitsText, List.foldl_map]
    simp only [toNat_digit, Nat.add_sub_cancel_left]
  have hfoldr : digits.foldl (fun n (d : Fin 10) => 10 * n + d.val) 0 =
      digits.reverse.foldr (fun d n => d.val + 10 * n) 0 := by
    rw [← List.foldl_reverse, List.reverse_reverse]
    simp only [Nat.add_comm]
  rw [digitsValue, hfoldl, hfoldr, digitsNumber, Nat.ofDigits_eq_foldr, List.foldr_map]
  rfl

/-! ## Exponents -/

/-- The sign of an exponent. -/
inductive Sign where
  | plus
  | minus

/-- The byte of a sign. -/
def Sign.byte : Sign → UInt8
  | .plus => 0x2B
  | .minus => 0x2D

/-- An exponent, its mark in lower case or not. -/
structure Exponent where
  lower : Bool
  sign : Option Sign
  digits : Digits

namespace Exponent

/-- The text of an exponent. -/
def text (e : Exponent) : Bytes :=
  (if e.lower then 0x65 else 0x45) :: ((e.sign.map Sign.byte).toList ++ digitsText e.digits.list)

/-- The number that an exponent denotes. -/
def value (e : Exponent) : Int :=
  match e.sign with
  | some .minus => -digitsNumber e.digits.list
  | _ => digitsNumber e.digits.list

end Exponent

/-! ## Tokens -/

/-- A token as a syntax tree. -/
inductive Token where
  | sixDigitColor (r₁ r₂ g₁ g₂ b₁ b₂ : HexDigit)
  | threeDigitColor (r g b : HexDigit)
  | integer (digits : Digits)
  | floating (integral fraction : Digits) (exponent : Option Exponent)

namespace Token

/-- The form of a token. -/
def form : Token → TokenForm
  | .sixDigitColor .. => .sixDigitColor
  | .threeDigitColor .. => .threeDigitColor
  | .integer .. => .integer
  | .floating .. => .floating

/-- The digits that a token begins with, behind the number sign of a color. -/
def leading : Token → Bytes
  | .sixDigitColor r₁ r₂ g₁ g₂ b₁ b₂ => [r₁, r₂, g₁, g₂, b₁, b₂].map HexDigit.byte
  | .threeDigitColor r g b => [r, g, b].map HexDigit.byte
  | .integer digits => digitsText digits.list
  | .floating integral _ _ => digitsText integral.list

/-- The text of an exponent that may be missing. -/
def exponentText (exponent : Option Exponent) : Bytes := (exponent.map Exponent.text).getD []

/-- The text of a token. -/
def text (t : Token) : Bytes :=
  match t with
  | .sixDigitColor .. => 0x23 :: t.leading
  | .threeDigitColor .. => 0x23 :: t.leading
  | .integer _ => t.leading
  | .floating _ fraction exponent =>
    t.leading ++ 0x2E :: (digitsText fraction.list ++ exponentText exponent)

/-- The decimal of a floating-point number. -/
def decimal (integral fraction : Digits) (exponent : Option Exponent) : Decimal :=
  ⟨digitsNumber (integral.list ++ fraction.list),
    (exponent.map Exponent.value).getD 0 - fraction.list.length⟩

/-- What a token denotes: nothing if it is a number out of range. -/
def value? : Token → Option Value
  | .sixDigitColor r₁ r₂ g₁ g₂ b₁ b₂ =>
    some (.color ⟨UInt8.ofNat (16 * r₁.value + r₂.value), UInt8.ofNat (16 * g₁.value + g₂.value),
      UInt8.ofNat (16 * b₁.value + b₂.value)⟩)
  | .threeDigitColor r g b =>
    some (.color ⟨UInt8.ofNat (17 * r.value), UInt8.ofNat (17 * g.value),
      UInt8.ofNat (17 * b.value)⟩)
  | .integer digits =>
    if digitsNumber digits.list < 2 ^ 64 then some (.integer (digitsNumber digits.list)) else none
  | .floating integral fraction exponent =>
    (Binary64.ofDecimal? (decimal integral fraction exponent)).map .floating

/-! ## Forms and texts -/

theorem exists_of_length_six {hex : List HexDigit} (h : hex.length = 6) :
    ∃ t : Token, t.form = .sixDigitColor ∧ t.text = 0x23 :: hex.map HexDigit.byte := by
  match hex, h with
  | [r₁, r₂, g₁, g₂, b₁, b₂], _ => exact ⟨.sixDigitColor r₁ r₂ g₁ g₂ b₁ b₂, rfl, rfl⟩

theorem exists_of_length_three {hex : List HexDigit} (h : hex.length = 3) :
    ∃ t : Token, t.form = .threeDigitColor ∧ t.text = 0x23 :: hex.map HexDigit.byte := by
  match hex, h with
  | [r, g, b], _ => exact ⟨.threeDigitColor r g b, rfl, rfl⟩

/-- The form that a text shows. -/
def formOf (s : Bytes) : TokenForm :=
  if s.head? = some 0x23 then
    if s.length = 7 then .sixDigitColor else .threeDigitColor
  else if 0x2E ∈ s then .floating else .integer

/-- Digits are no number sign. -/
theorem head?_digitsText_append_ne (digits : Digits) (s : Bytes) :
    (digitsText digits.list ++ s).head? ≠ some 0x23 := by
  obtain ⟨d, more, hlist⟩ := List.exists_cons_of_ne_nil digits.ne_nil
  rw [hlist]
  intro h
  have hdigit : digit d = 0x23 := Option.some.inj h
  have hclass := isDigitByte_digit d
  rw [hdigit] at hclass
  exact absurd hclass (by decide)

/-- The text of a token shows its form. -/
theorem form_eq_formOf (t : Token) : t.form = formOf t.text := by
  cases t with
  | sixDigitColor => rfl
  | threeDigitColor => rfl
  | integer digits =>
    have hhead : (digitsText digits.list).head? ≠ some 0x23 := by
      simpa using head?_digitsText_append_ne digits []
    have hpoint : 0x2E ∉ digitsText digits.list := fun h =>
      absurd (isDigitByte_of_mem h) (by decide)
    rw [formOf, text, leading, if_neg hhead, if_neg hpoint, form]
  | floating integral fraction exponent =>
    have hpoint : 0x2E ∈ text (.floating integral fraction exponent) := by simp [text]
    have hhead : (text (.floating integral fraction exponent)).head? ≠ some 0x23 :=
      head?_digitsText_append_ne integral _
    rw [formOf, if_neg hhead, if_pos hpoint, form]

end Token
end Value
end PrefixMatching
