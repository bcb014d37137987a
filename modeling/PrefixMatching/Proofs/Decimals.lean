import Mathlib.Algebra.Order.Ring.Nat
import PrefixMatching.Bytes

/-!
# Decimals of a fixed width

A number that is padded to a width has that many bytes (`length_paddedDecimal`), it is read back
from them (`digitsValue_paddedDecimal`), and it is its decimal with zeros in front
(`paddedDecimal_eq_replicate`). Of two numbers that fit a width, the smaller one comes first in the
lexicographic order of bytes (`paddedDecimal_lt`), so texts that are made of such fields are
compared field by field (`paddedDecimal_append_lt`).
-/

namespace PrefixMatching

variable {width n n' : Nat} {s s' : Bytes}

theorem length_paddedDecimal (width n : Nat) : (paddedDecimal width n).length = width := by
  induction width generalizing n with
  | zero => rfl
  | succ width ih => rw [paddedDecimal, List.length_append, ih, List.length_singleton]

theorem toNat_digit_of_lt (h : n < 10) : (digit n).toNat = 0x30 + n :=
  UInt8.toNat_ofNat_of_lt (by rw [UInt8.size]; omega)

theorem exists_digit_of_mem_paddedDecimal {b : UInt8} (h : b ∈ paddedDecimal width n) :
    ∃ d < 10, b = digit d := by
  induction width generalizing n with
  | zero => cases h
  | succ width ih =>
    rw [paddedDecimal, List.mem_append, List.mem_singleton] at h
    rcases h with hmem | rfl
    · exact ih hmem
    · exact ⟨n % 10, Nat.mod_lt n (by decide), rfl⟩

theorem div_ten_lt (h : n < 10 ^ (width + 1)) : n / 10 < 10 ^ width :=
  Nat.div_lt_of_lt_mul (by rwa [Nat.mul_comm, ← Nat.pow_succ])

/-- The digits of a number that fits are read back. -/
theorem digitsValue_paddedDecimal (h : n < 10 ^ width) :
    digitsValue (paddedDecimal width n) = n := by
  induction width generalizing n with
  | zero =>
    rw [Nat.pow_zero, Nat.lt_one_iff] at h
    rw [h]
    rfl
  | succ width ih =>
    have hlast := toNat_digit_of_lt (Nat.mod_lt n (by decide : 0 < 10))
    have hfold : digitsValue (paddedDecimal (width + 1) n) =
        10 * digitsValue (paddedDecimal width (n / 10)) + ((digit (n % 10)).toNat - 0x30) := by
      rw [paddedDecimal, digitsValue, List.foldl_append]
      rfl
    rw [hfold, ih (div_ten_lt h), hlast]
    omega

/-! ## Zeros in front -/

theorem byte_digitChar (h : n < 10) : byte n.digitChar = digit n := by
  have hall : ∀ d : Fin 10, byte (Nat.digitChar d) = digit d := by decide
  exact hall ⟨n, h⟩

theorem decimal_of_lt (h : n < 10) : decimal n = [digit n] := by
  rw [decimal, Nat.toDigits_of_lt_base h, List.map_singleton, byte_digitChar h]

theorem decimal_of_le (h : 10 ≤ n) : decimal n = decimal (n / 10) ++ [digit (n % 10)] := by
  rw [decimal, Nat.toDigits_of_base_le (by decide) h, List.map_append, List.map_singleton,
    byte_digitChar (Nat.mod_lt n (by decide)), decimal]

theorem exists_digit_of_mem_decimal {b : UInt8} (h : b ∈ decimal n) : ∃ d < 10, b = digit d := by
  induction n using Nat.strongRecOn with
  | ind n ih =>
    rcases Nat.lt_or_ge n 10 with hsmall | hlarge
    · rw [decimal_of_lt hsmall, List.mem_singleton] at h
      exact ⟨n, hsmall, h⟩
    · rw [decimal_of_le hlarge, List.mem_append, List.mem_singleton] at h
      rcases h with hmem | rfl
      · exact ih (n / 10) (by omega) hmem
      · exact ⟨n % 10, Nat.mod_lt n (by decide), rfl⟩

theorem paddedDecimal_zero (width : Nat) :
    paddedDecimal width 0 = List.replicate width (byte '0') := by
  induction width with
  | zero => rfl
  | succ width ih => rw [paddedDecimal, ih, List.replicate_succ']; rfl

/-- A padded number is the number with zeros in front. -/
theorem paddedDecimal_eq_replicate (hwidth : 0 < width) (h : n < 10 ^ width) :
    paddedDecimal width n =
      List.replicate (width - (decimal n).length) (byte '0') ++ decimal n := by
  induction width generalizing n with
  | zero => cases hwidth
  | succ width ih =>
    rcases Nat.lt_or_ge n 10 with hsmall | hlarge
    · rw [paddedDecimal, Nat.div_eq_of_lt hsmall, Nat.mod_eq_of_lt hsmall, paddedDecimal_zero,
        decimal_of_lt hsmall, List.length_singleton, Nat.add_sub_cancel]
    · have hmore : 0 < width := by
        refine Nat.pos_of_ne_zero fun hzero => ?_
        rw [hzero] at h
        omega
      rw [paddedDecimal, ih hmore (div_ten_lt h), decimal_of_le hlarge, List.length_append,
        List.length_singleton, Nat.add_sub_add_right, List.append_assoc]

/-! ## Order -/

/-- Texts of the same length that differ are compared before what follows them. -/
theorem append_lt_append_of_length_eq {a b : Bytes} (h : a < b) (hlength : a.length = b.length)
    (s s' : Bytes) : a ++ s < b ++ s' := by
  induction h with
  | nil => cases hlength
  | rel h => exact .rel h
  | cons _ ih => exact .cons (ih (Nat.succ.inj hlength))

theorem digit_lt_digit (h : n < n') (h' : n' < 10) : digit n < digit n' := by
  rw [UInt8.lt_iff_toNat_lt, toNat_digit_of_lt h', toNat_digit_of_lt (Nat.lt_trans h h')]
  omega

/-- Of two numbers that fit, the smaller one comes first. -/
theorem paddedDecimal_lt (h : n < n') (h' : n' < 10 ^ width) :
    paddedDecimal width n < paddedDecimal width n' := by
  induction width generalizing n n' with
  | zero =>
    rw [Nat.pow_zero] at h'
    omega
  | succ width ih =>
    rw [paddedDecimal, paddedDecimal]
    rcases Nat.lt_or_ge (n / 10) (n' / 10) with hlt | hge
    · exact append_lt_append_of_length_eq (ih hlt (div_ten_lt h'))
        (by rw [length_paddedDecimal, length_paddedDecimal]) _ _
    · have hsame : n / 10 = n' / 10 := by omega
      rw [hsame]
      exact List.append_left_lt (.rel (digit_lt_digit (by omega) (by omega)))

/-- Fields of one width are compared first, and what follows them where they are equal. -/
theorem paddedDecimal_append_lt (hfits : n' < 10 ^ width) (h : n < n' ∨ n = n' ∧ s < s') :
    paddedDecimal width n ++ s < paddedDecimal width n' ++ s' := by
  rcases h with hlt | ⟨rfl, hlt⟩
  · exact append_lt_append_of_length_eq (paddedDecimal_lt hlt hfits)
      (by rw [length_paddedDecimal, length_paddedDecimal]) _ _
  · exact List.append_left_lt hlt

end PrefixMatching
