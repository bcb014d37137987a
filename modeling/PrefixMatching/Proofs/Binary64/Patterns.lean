import Mathlib.Algebra.Order.Field.Rat
import Mathlib.Tactic.Linarith
import Mathlib.Tactic.Ring
import PrefixMatching.Binary64

/-!
# Patterns and their numbers

A pattern has a sign, a biased exponent and a fraction, and its number is made of these
(`Binary64.toRat`). Rounding works with another picture: numbers are counted in units of the least
positive one, and a pattern is a significand that is doubled a number of times (`Binary64.shift`).
The two pictures agree (`toRat_mul_unitsPerOne`, `of_pattern`).

A quotient is rounded to a pattern of its own binade (`shiftOf_spec`). So the pattern tells how
large the quotient is: it is zero up to half a unit (`pattern_eq_zero_iff`), and it is beyond a
binade from half a step below the next one on (`le_pattern_iff`).
-/

namespace PrefixMatching
namespace Binary64

variable {num den units : Nat}

/-! ## Numbers -/

/-- The biased exponent. -/
def exponentField (x : Binary64) : Nat := x.bits.toNat / 2 ^ 52 % 2 ^ 11

/-- The bits behind the point. -/
def fraction (x : Binary64) : Nat := x.bits.toNat % 2 ^ 52

/-- Whether the sign bit is set. -/
def isNegative (x : Binary64) : Bool := 2 ^ 63 ≤ x.bits.toNat

/-- Whether a pattern is neither infinite nor not a number. -/
def IsFinite (x : Binary64) : Prop := x.exponentField ≠ 2047

instance : DecidablePred IsFinite := fun x => inferInstanceAs (Decidable (x.exponentField ≠ 2047))

/-- The significand as an integer. Subnormal numbers have no leading one. -/
def significand (x : Binary64) : Nat :=
  if x.exponentField = 0 then x.fraction else 2 ^ 52 + x.fraction

/-- The sign of a number. -/
def sign (x : Binary64) : ℤ := if x.isNegative then -1 else 1

/-- The number of a finite pattern. -/
def toRat (x : Binary64) : ℚ :=
  x.sign * x.significand * 2 ^ (max x.exponentField 1 - 1075 : ℤ)

theorem significand_lt (x : Binary64) : x.significand < 2 ^ 53 := by
  have hfraction : x.fraction < 2 ^ 52 := Nat.mod_lt _ (by decide)
  rw [significand]
  split <;> omega

/-! ## Units -/

/-- How many units of the least positive number make one. -/
def unitsPerOne : Nat := Nat.pow 2 1074

/-- How often the significand is doubled if numbers are counted in units. -/
def shift (x : Binary64) : Nat := max x.exponentField 1 - 1

theorem cast_two_pow (n : Nat) : ((Nat.pow 2 n : ℕ) : ℚ) = 2 ^ (n : ℤ) := by
  rw [Nat.pow_eq, Nat.cast_pow, Nat.cast_ofNat, zpow_natCast]

theorem cast_unitsPerOne : (unitsPerOne : ℚ) = 2 ^ (1074 : ℤ) := cast_two_pow 1074

theorem unitsPerOne_pos : (0 : ℚ) < unitsPerOne := by
  rw [cast_unitsPerOne]
  exact zpow_pos two_pos _

theorem two_pow_mul_unitsPerOne (e : ℤ) : (2 : ℚ) ^ e * unitsPerOne = 2 ^ (e + 1074) := by
  rw [cast_unitsPerOne, zpow_add₀ two_ne_zero]

/-- A number counted in units is an integer. -/
theorem toRat_mul_unitsPerOne (x : Binary64) :
    x.toRat * unitsPerOne = (x.sign * (x.significand * 2 ^ x.shift : ℕ) : ℤ) := by
  have hexponent : (max x.exponentField 1 - 1075 : ℤ) + 1074 = x.shift := by
    rw [shift]
    omega
  rw [toRat, mul_assoc, two_pow_mul_unitsPerOne, hexponent, zpow_natCast]
  push_cast
  ring

theorem toRat_mul_unitsPerOne_of_pos {x : Binary64} (h : x.isNegative = false) :
    x.toRat * unitsPerOne = (x.significand * 2 ^ x.shift : ℕ) := by
  rw [toRat_mul_unitsPerOne, sign, h]
  simp

/-- Counted in units, every number is a multiple of `2^shift` or less than `2^(52+shift)`. -/
theorem toRat_mul_unitsPerOne_cases (x : Binary64) (shift : Nat) :
    (∃ k : ℤ, x.toRat * unitsPerOne = k * 2 ^ shift) ∨
      0 < shift ∧ x.toRat * unitsPerOne < 2 ^ (52 + shift) := by
  rw [toRat_mul_unitsPerOne]
  rcases Nat.lt_or_ge x.shift shift with hlt | hle
  · right
    have hsign : x.sign * (x.significand * 2 ^ x.shift : ℕ) ≤
        (x.significand * 2 ^ x.shift : ℕ) := by
      rw [sign]
      split <;> omega
    have hsmall : x.significand * 2 ^ x.shift < 2 ^ (52 + shift) := by
      calc x.significand * 2 ^ x.shift < 2 ^ 53 * 2 ^ x.shift :=
            Nat.mul_lt_mul_of_pos_right x.significand_lt (Nat.two_pow_pos _)
        _ = 2 ^ (52 + (x.shift + 1)) := by rw [← pow_add]; congr 1; omega
        _ ≤ 2 ^ (52 + shift) := Nat.pow_le_pow_right two_pos (by omega)
    have hbelow : x.sign * (x.significand * 2 ^ x.shift : ℕ) < (2 ^ (52 + shift) : ℕ) := by
      omega
    exact ⟨by omega, by exact_mod_cast hbelow⟩
  · left
    obtain ⟨more, hmore⟩ := Nat.exists_eq_add_of_le hle
    refine ⟨x.sign * (x.significand * 2 ^ more : ℕ), ?_⟩
    rw [hmore, pow_add]
    push_cast
    ring

/-- The pattern of a significand that is doubled `shift` times. Where rounding has carried the
significand to `2^53`, it is `2^52` doubled once more. -/
theorem of_pattern {shift n : Nat} (hn : n ≤ 2 ^ 53) (hnormal : shift = 0 ∨ 2 ^ 52 ≤ n)
    (hfinite : shift * 2 ^ 52 + n < infinity) :
    let x : Binary64 := ⟨UInt64.ofNat (shift * 2 ^ 52 + n)⟩
    x.IsFinite ∧ x.isNegative = false ∧ x.significand * 2 ^ x.shift = n * 2 ^ shift ∧
      (Even n → Even x.significand) := by
  intro x
  have hinfinity : infinity = 2047 * 2 ^ 52 := rfl
  have hbits : x.bits.toNat = shift * 2 ^ 52 + n :=
    UInt64.toNat_ofNat_of_lt (by rw [UInt64.size]; omega)
  have hpositive : x.isNegative = false := by
    rw [isNegative, hbits, decide_eq_false_iff_not]
    omega
  rcases Nat.lt_or_ge n (2 ^ 52) with hsubnormal | hlarge
  · -- a subnormal number
    obtain rfl : shift = 0 := hnormal.resolve_right (by omega)
    have hfield : x.exponentField = 0 := by
      rw [exponentField, hbits]
      omega
    have hsignificand : x.significand = n := by
      rw [significand, if_pos hfield, fraction, hbits]
      omega
    have hshift : x.shift = 0 := by rw [Binary64.shift, hfield]; rfl
    rw [IsFinite, hfield, hsignificand, hshift]
    exact ⟨by decide, hpositive, rfl, id⟩
  · rcases Nat.lt_or_ge n (2 ^ 53) with hnormal | hcarry
    · have hfield : x.exponentField = shift + 1 := by
        rw [exponentField, hbits]
        omega
      have hsignificand : x.significand = n := by
        rw [significand, hfield, if_neg (Nat.succ_ne_zero shift), fraction, hbits]
        omega
      have hshift : x.shift = shift := by
        rw [Binary64.shift, hfield]
        omega
      rw [IsFinite, hfield, hsignificand, hshift]
      exact ⟨by omega, hpositive, rfl, id⟩
    · -- the carry leaves no fraction and goes into the exponent
      have hfield : x.exponentField = shift + 2 := by
        rw [exponentField, hbits]
        omega
      have hsignificand : x.significand = 2 ^ 52 := by
        rw [significand, hfield, if_neg (Nat.succ_ne_zero _), fraction, hbits]
        omega
      have hshift : x.shift = shift + 1 := by
        rw [Binary64.shift, hfield]
        omega
      obtain rfl : n = 2 ^ 53 := by omega
      rw [IsFinite, hfield, hsignificand, hshift]
      exact ⟨by omega, hpositive, by rw [pow_succ]; ring, fun _ => by decide⟩

/-! ## Bounds on a rounded quotient -/

theorem roundHalfEven_cases (num den : Nat) :
    roundHalfEven num den = num / den ∧ 2 * (num % den) ≤ den ∨
      roundHalfEven num den = num / den + 1 ∧ den ≤ 2 * (num % den) := by
  rw [roundHalfEven]
  split_ifs with hbelow habove
  · exact .inl ⟨rfl, hbelow.le⟩
  · exact .inr ⟨rfl, habove.le⟩
  · rcases Nat.mod_two_eq_zero_or_one (num / den) with hparity | hparity
    · exact .inl ⟨by rw [hparity, Nat.add_zero], by omega⟩
    · exact .inr ⟨by rw [hparity], by omega⟩

theorem roundHalfEven_le {k : Nat} (h : num < den * k) : roundHalfEven num den ≤ k := by
  have hfloor : num / den < k := Nat.div_lt_of_lt_mul h
  rcases roundHalfEven_cases num den with ⟨hround, -⟩ | ⟨hround, -⟩ <;> omega

theorem le_roundHalfEven {k : Nat} (hden : 0 < den) (h : den * k ≤ num) :
    k ≤ roundHalfEven num den := by
  have hfloor : k ≤ num / den := (Nat.le_div_iff_mul_le hden).mpr (by rwa [Nat.mul_comm])
  rcases roundHalfEven_cases num den with ⟨hround, -⟩ | ⟨hround, -⟩ <;> omega

/-- A quotient is rounded up to an even number from a half below it on. -/
theorem succ_le_roundHalfEven_iff (num : Nat) {k : Nat} (hden : 0 < den) (hodd : k % 2 = 1) :
    k + 1 ≤ roundHalfEven num den ↔ den * (2 * k + 1) ≤ 2 * num := by
  have hparts := Nat.div_add_mod num den
  have hrest := Nat.mod_lt num hden
  have hlinear : den * (2 * k + 1) = 2 * (den * k) + den := by ring
  rcases Nat.lt_trichotomy (num / den) k with hlt | heq | hgt
  · have hmul : den * (num / den) + den ≤ den * k := by
      rw [← Nat.mul_succ]
      exact Nat.mul_le_mul_left den hlt
    refine iff_of_false ?_ (by omega)
    rcases roundHalfEven_cases num den with ⟨hround, -⟩ | ⟨hround, -⟩ <;> omega
  · rw [heq] at hparts
    rw [hlinear, roundHalfEven, heq]
    split_ifs <;> omega
  · have hmul : den * k + den ≤ den * (num / den) := by
      rw [← Nat.mul_succ]
      exact Nat.mul_le_mul_left den hgt
    refine iff_of_true ?_ (by omega)
    rcases roundHalfEven_cases num den with ⟨hround, -⟩ | ⟨hround, -⟩ <;> omega

theorem roundHalfEven_eq_zero_iff (num : Nat) (hden : 0 < den) :
    roundHalfEven num den = 0 ↔ 2 * num ≤ den := by
  have hparts := Nat.div_add_mod num den
  rcases Nat.eq_zero_or_pos (num / den) with hfloor | hfloor
  · rw [hfloor, Nat.mul_zero, Nat.zero_add] at hparts
    rw [roundHalfEven, hfloor, hparts]
    split_ifs with hbelow habove
    · exact iff_of_true rfl hbelow.le
    · exact iff_of_false id (by omega)
    · exact iff_of_true rfl (by omega)
  · have hle : den ≤ den * (num / den) := Nat.le_mul_of_pos_right den hfloor
    refine iff_of_false ?_ (by omega)
    rcases roundHalfEven_cases num den with ⟨hround, -⟩ | ⟨hround, -⟩ <;> omega

/-! ## The pattern of a quotient -/

/-- How often the significand is doubled in the number nearest to a quotient in units. -/
def shiftOf (units den : Nat) : Nat := (units / den).log2 - 52

/-- The significand of the number nearest to a quotient in units. -/
def significandOf (units den : Nat) : Nat :=
  roundHalfEven units (den * 2 ^ shiftOf units den)

theorem nearestPattern_eq (num den : Nat) :
    nearestPattern num den = shiftOf (num * unitsPerOne) den * 2 ^ 52 +
      significandOf (num * unitsPerOne) den := by rfl

/-- A quotient is in the binade of its shift, or below all normal numbers. -/
theorem shiftOf_spec (units : Nat) (hden : 0 < den) :
    units < den * 2 ^ shiftOf units den * 2 ^ 53 ∧
      (shiftOf units den = 0 ∨ den * 2 ^ shiftOf units den * 2 ^ 52 ≤ units) := by
  rw [Nat.mul_assoc, Nat.mul_assoc, ← Nat.pow_add, ← Nat.pow_add, shiftOf]
  constructor
  · have hlt : units / den < 2 ^ ((units / den).log2 - 52 + 53) :=
      Nat.lt_log2_self.trans_le (Nat.pow_le_pow_right two_pos (by omega))
    rwa [Nat.div_lt_iff_lt_mul hden, Nat.mul_comm] at hlt
  · rcases Nat.eq_zero_or_pos ((units / den).log2 - 52) with hzero | hpos
    · exact .inl hzero
    · have hne : units / den ≠ 0 := by
        intro hzero
        rw [hzero, Nat.log2_zero] at hpos
        omega
      have hle : 2 ^ ((units / den).log2 - 52 + 52) ≤ units / den := by
        rw [Nat.sub_add_cancel (by omega)]
        exact Nat.log2_self_le hne
      rw [Nat.le_div_iff_mul_le hden, Nat.mul_comm] at hle
      exact .inr hle

theorem significandOf_le (units : Nat) (hden : 0 < den) : significandOf units den ≤ 2 ^ 53 :=
  roundHalfEven_le (shiftOf_spec units hden).1

theorem le_significandOf (hden : 0 < den) (h : den * 2 ^ shiftOf units den * 2 ^ 52 ≤ units) :
    2 ^ 52 ≤ significandOf units den :=
  le_roundHalfEven (Nat.mul_pos hden (Nat.two_pow_pos _)) h

/-- The pattern is zero up to half a unit. -/
theorem pattern_eq_zero_iff (units : Nat) (hden : 0 < den) :
    shiftOf units den * 2 ^ 52 + significandOf units den = 0 ↔ 2 * units ≤ den := by
  rcases (shiftOf_spec units hden).2 with hshift | hnormal
  · rw [significandOf, hshift, Nat.zero_mul, Nat.zero_add, Nat.pow_zero, Nat.mul_one]
    exact roundHalfEven_eq_zero_iff units hden
  · have hstep : den ≤ den * 2 ^ shiftOf units den :=
      Nat.le_mul_of_pos_right den (Nat.two_pow_pos _)
    have hsignificand := le_significandOf hden hnormal
    exact iff_of_false (by omega) (by omega)

/-- The pattern is beyond a binade from half a step below the next binade on. -/
theorem le_pattern_iff (units : Nat) (hden : 0 < den) (top : Nat) :
    (top + 2) * 2 ^ 52 ≤ shiftOf units den * 2 ^ 52 + significandOf units den ↔
      den * 2 ^ top * 2 ^ 54 ≤ 2 * units + den * 2 ^ top := by
  obtain ⟨hbelow, hnormal⟩ := shiftOf_spec units hden
  have hle := significandOf_le units hden
  rcases Nat.lt_trichotomy (shiftOf units den) top with hlt | rfl | hgt
  · -- a lower binade ends before the limit, also after a carry
    have hstep : den * 2 ^ shiftOf units den * 2 ≤ den * 2 ^ top := by
      rw [Nat.mul_assoc, ← Nat.pow_succ]
      exact Nat.mul_le_mul_left den (Nat.pow_le_pow_right two_pos hlt)
    exact iff_of_false (by omega) (by omega)
  · -- in this binade only the significand that is carried reaches the limit
    have hodd : (2 ^ 53 - 1) % 2 = 1 := by norm_num
    have hround := succ_le_roundHalfEven_iff units
      (Nat.mul_pos hden (Nat.two_pow_pos (shiftOf units den))) hodd
    rw [← significandOf] at hround
    omega
  · have hstep : den * 2 ^ top * 2 ≤ den * 2 ^ shiftOf units den := by
      rw [Nat.mul_assoc, ← Nat.pow_succ]
      exact Nat.mul_le_mul_left den (Nat.pow_le_pow_right two_pos hgt)
    have hnormal := hnormal.resolve_left (by omega)
    have hsignificand := le_significandOf hden hnormal
    have hpattern : (top + 2) * 2 ^ 52 ≤ (shiftOf units den + 1) * 2 ^ 52 :=
      Nat.mul_le_mul_right _ (by omega)
    exact iff_of_true (by linarith) (by linarith)

end Binary64
end PrefixMatching
