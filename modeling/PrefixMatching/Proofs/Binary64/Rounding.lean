import Mathlib.Algebra.Order.Field.Power
import Mathlib.Tactic.FieldSimp
import Mathlib.Tactic.Positivity
import PrefixMatching.Proofs.Binary64.Patterns

/-!
# Rounding to the nearest number

A number is what a rational is rounded to (`Rounds`) if no other is nearer, and if its significand
is even where another one is equally near. The nearest integer to a quotient is found by division
(`roundHalfEven_nearest`), hence the nearest multiple of a step (`nearest_multiple`). Every number
is a multiple of the step of the quotient's binade or below that binade (`exists_multiple`), so the
nearest multiple is the nearest number (`rounds_of_ofRatio?`).

What a quotient is rounded to depends on its value only (`ofRatio?_congr`), so rounding is a
function of a rational (`ofRat?`). A decimal is rounded like its value (`ofDecimal?_eq_ofRat?`):
where its number of digits settles it without the power of ten, the value is out of range.
-/

namespace PrefixMatching
namespace Binary64

variable {num den : Nat}

/-! ## The nearest integer -/

theorem cast_div_eq (num : Nat) (hden : 0 < den) :
    (num / den : ℚ) = (num / den : ℕ) + (num % den : ℕ) / den := by
  have hparts : (num : ℚ) = den * (num / den : ℕ) + (num % den : ℕ) := by
    exact_mod_cast (Nat.div_add_mod num den).symm
  have hne : (den : ℚ) ≠ 0 := by positivity
  rw [hparts]
  field_simp

/-- Rounding moves a quotient by a half at most, and by exactly a half only to an even integer. -/
theorem abs_sub_roundHalfEven_le (num : Nat) (hden : 0 < den) :
    |(num / den : ℚ) - roundHalfEven num den| ≤ 1 / 2 ∧
      (|(num / den : ℚ) - roundHalfEven num den| = 1 / 2 → Even (roundHalfEven num den)) := by
  have hpos : (0 : ℚ) < den := by exact_mod_cast hden
  have hnonneg : (0 : ℚ) ≤ (num % den : ℕ) / den := by positivity
  have hlt : ((num % den : ℕ) / den : ℚ) < 1 := by
    rw [div_lt_one hpos]
    exact_mod_cast Nat.mod_lt num hden
  have htwice : 2 * ((num % den : ℕ) / den : ℚ) = (2 * (num % den) : ℕ) / den := by
    push_cast
    ring
  rw [cast_div_eq num hden, roundHalfEven]
  generalize hrest : ((num % den : ℕ) / den : ℚ) = rest at *
  split_ifs with hbelow habove
  · have hhalf : 2 * rest < 1 := by
      rw [htwice, div_lt_one hpos]
      exact_mod_cast hbelow
    rw [add_sub_cancel_left, abs_of_nonneg hnonneg]
    exact ⟨by linarith, fun h => by linarith⟩
  · have hhalf : 1 < 2 * rest := by
      rw [htwice, one_lt_div hpos]
      exact_mod_cast habove
    have herror : |((num / den : ℕ) : ℚ) + rest - (num / den + 1 : ℕ)| = 1 - rest := by
      push_cast
      rw [add_sub_add_left_eq_sub, abs_sub_comm, abs_of_nonneg (by linarith)]
    rw [herror]
    exact ⟨by linarith, fun h => by linarith⟩
  · have hhalf : rest = 1 / 2 := by
      have htie : 2 * (num % den) = den := by omega
      rw [htie, div_self hpos.ne'] at htwice
      linarith
    have heven : Even (num / den + num / den % 2) := by
      rw [Nat.even_iff]
      omega
    refine ⟨?_, fun _ => heven⟩
    rcases Nat.mod_two_eq_zero_or_one (num / den) with hparity | hparity
    · rw [hparity, hhalf, Nat.add_zero, add_sub_cancel_left, abs_of_pos (by norm_num)]
    · rw [hparity, hhalf]
      push_cast
      rw [add_sub_add_left_eq_sub]
      norm_num

/-- No integer is nearer to a quotient than the rounded one, and that is even if another is equally
near. -/
theorem roundHalfEven_nearest (num : Nat) (hden : 0 < den) (k : ℤ) :
    |(num / den : ℚ) - roundHalfEven num den| ≤ |(num / den : ℚ) - k| ∧
      (|(num / den : ℚ) - roundHalfEven num den| = |(num / den : ℚ) - k| →
        k ≠ roundHalfEven num den → Even (roundHalfEven num den)) := by
  obtain ⟨hhalf, heven⟩ := abs_sub_roundHalfEven_le num hden
  generalize (roundHalfEven num den) = n at *
  by_cases hk : k = n
  · rw [hk]
    exact ⟨le_rfl, fun _ hne => absurd rfl hne⟩
  · -- two different integers are one apart at least
    have hapart : (1 : ℚ) ≤ |(n : ℚ) - k| := by
      have hint : (1 : ℤ) ≤ |(n : ℤ) - k| := Int.one_le_abs (sub_ne_zero.mpr (Ne.symm hk))
      exact_mod_cast hint
    have htriangle : |(n : ℚ) - k| ≤ |(num / den : ℚ) - n| + |(num / den : ℚ) - k| := by
      have hsum := abs_sub_le (n : ℚ) (num / den) k
      rwa [abs_sub_comm (n : ℚ) (num / den)] at hsum
    exact ⟨by linarith, fun htie _ => heven (by linarith)⟩

/-- A quotient that is rounded to a multiple of a step is nearest to it among these multiples and
the numbers below one of them that the quotient reaches. -/
theorem nearest_multiple {num den step : Nat} (hden : 0 < den) (hstep : 0 < step) {y : ℚ}
    (hy : ∃ k : ℤ, y = k * step ∨ y < k * step ∧ k * step ≤ (num / den : ℚ)) :
    let n := roundHalfEven num (den * step)
    |(num / den : ℚ) - n * step| ≤ |(num / den : ℚ) - y| ∧
      (|(num / den : ℚ) - n * step| = |(num / den : ℚ) - y| → y ≠ n * step → Even n) := by
  intro n
  have hpos : (0 : ℚ) < step := by exact_mod_cast hstep
  have hquotient : (num / (den * step : ℕ) : ℚ) * step = num / den := by
    push_cast
    field_simp
  have hscale : ∀ k : ℚ, |(num / den : ℚ) - k * step| =
      |(num / (den * step : ℕ) : ℚ) - k| * step := by
    intro k
    rw [← hquotient, ← sub_mul, abs_mul, abs_of_pos hpos]
  obtain ⟨k, hk⟩ := hy
  obtain ⟨hle, heven⟩ := roundHalfEven_nearest num (Nat.mul_pos hden hstep) k
  have hnearest : |(num / den : ℚ) - n * step| ≤ |(num / den : ℚ) - k * step| := by
    rw [hscale, hscale]
    exact mul_le_mul_of_nonneg_right hle hpos.le
  rcases hk with rfl | ⟨hbelow, habove⟩
  · refine ⟨hnearest, fun htie hne => ?_⟩
    rw [hscale, hscale] at htie
    refine heven (mul_right_cancel₀ hpos.ne' htie) fun hk => hne ?_
    rw [hk, Int.cast_natCast]
  · -- the multiple lies between, so it is nearer
    have hlt : |(num / den : ℚ) - k * step| < |(num / den : ℚ) - y| := by
      rw [abs_of_nonneg (by linarith), abs_of_pos (by linarith)]
      linarith
    exact ⟨by linarith, fun htie => by linarith⟩

/-! ## Quotients out of range -/

/-- Half a step below a power of two, counted in units. -/
theorem le_div_iff_units (num : Nat) (hden : 0 < den) {limit step top : Nat}
    (hlimit : limit = step + 54) (htop : top = step + 1075) :
    (2 : ℚ) ^ limit - 2 ^ step ≤ num / den ↔
      den * 2 ^ top * 2 ^ 54 ≤ 2 * (num * unitsPerOne) + den * 2 ^ top := by
  have hpos : (0 : ℚ) < den := by exact_mod_cast hden
  have hunits : (0 : ℚ) < 2 * unitsPerOne := mul_pos two_pos unitsPerOne_pos
  have hexponent : 1 + ((step : ℤ) + 1074) = top := by omega
  have hpower : (2 : ℚ) ^ step * (2 * unitsPerOne) = 2 ^ top := by
    rw [mul_left_comm, ← zpow_natCast, two_pow_mul_unitsPerOne, ← zpow_one_add₀ two_ne_zero,
      hexponent, zpow_natCast]
  have hleft : ((2 : ℚ) ^ limit - 2 ^ step) * den * (2 * unitsPerOne) =
      den * 2 ^ top * 2 ^ 54 - den * 2 ^ top := by
    rw [← hpower, hlimit, pow_add]
    ring
  have hright : (num : ℚ) * (2 * unitsPerOne) = 2 * (num * unitsPerOne) := by ring
  rw [le_div_iff₀ hpos, ← mul_le_mul_iff_left₀ hunits, hleft, hright, sub_le_iff_le_add]
  exact_mod_cast Iff.rfl

/-- Half a unit. -/
theorem div_le_iff_units (num : Nat) (hden : 0 < den) :
    (num / den : ℚ) ≤ 2 ^ (-1075 : ℤ) ↔ 2 * (num * unitsPerOne) ≤ den := by
  have hpos : (0 : ℚ) < den := by exact_mod_cast hden
  have hunits : (0 : ℚ) < 2 * unitsPerOne := mul_pos two_pos unitsPerOne_pos
  have hhalf : (2 : ℚ) ^ (-1075 : ℤ) * (2 * unitsPerOne) = 1 := by
    rw [mul_left_comm, two_pow_mul_unitsPerOne, ← zpow_one_add₀ two_ne_zero]
    norm_num
  have hleft : (num : ℚ) * (2 * unitsPerOne) = 2 * (num * unitsPerOne) := by ring
  have hright : (2 : ℚ) ^ (-1075 : ℤ) * den * (2 * unitsPerOne) = den := by
    rw [mul_right_comm, hhalf, one_mul]
  rw [div_le_iff₀ hpos, ← mul_le_mul_iff_left₀ hunits, hleft, hright]
  exact_mod_cast Iff.rfl

theorem infinity_le_pattern_iff (num : Nat) (hden : 0 < den) :
    infinity ≤ nearestPattern num den ↔ (2 : ℚ) ^ 1024 - 2 ^ 970 ≤ num / den := by
  rw [nearestPattern_eq, le_div_iff_units num hden rfl rfl]
  exact le_pattern_iff (num * unitsPerOne) hden 2045

theorem nearestPattern_eq_zero_iff (num : Nat) (hden : 0 < den) :
    nearestPattern num den = 0 ↔ (num / den : ℚ) ≤ 2 ^ (-1075 : ℤ) := by
  rw [nearestPattern_eq, pattern_eq_zero_iff _ hden, div_le_iff_units num hden]

/-- A quotient has no number if it is nearer to infinity or not above half the least number. -/
theorem ofRatio?_eq_none_iff (num : Nat) (hden : 0 < den) :
    ofRatio? num den = none ↔
      (2 : ℚ) ^ 1024 - 2 ^ 970 ≤ num / den ∨ (num / den : ℚ) ≤ 2 ^ (-1075 : ℤ) := by
  rw [← infinity_le_pattern_iff num hden, ← nearestPattern_eq_zero_iff num hden, or_comm]
  simp only [ofRatio?]
  split_ifs with hrange
  · exact iff_of_true rfl (by simpa using hrange)
  · exact iff_of_false nofun (by simpa using hrange)

/-! ## Rounding -/

/-- `x` is `q` rounded to a finite number: no other is nearer, and if another is equally near then
`x` has the even significand. -/
structure Rounds (q : ℚ) (x : Binary64) : Prop where
  isFinite : x.IsFinite
  nearest : ∀ y : Binary64, y.IsFinite → |q - x.toRat| ≤ |q - y.toRat|
  even : ∀ y : Binary64, y.IsFinite → |q - x.toRat| = |q - y.toRat| → y.toRat ≠ x.toRat →
    Even x.significand

/-- Distances counted in units. -/
theorem abs_sub_mul_unitsPerOne (q z : ℚ) :
    |q - z| * unitsPerOne = |q * unitsPerOne - z * unitsPerOne| := by
  rw [← sub_mul, abs_mul, abs_of_pos unitsPerOne_pos]

/-- Counted in units, every number is a multiple of the step of a quotient's binade, or it is below
one that the quotient reaches. -/
theorem exists_multiple (units : Nat) (hden : 0 < den) (y : Binary64) :
    ∃ k : ℤ, y.toRat * unitsPerOne = k * (2 ^ shiftOf units den : ℕ) ∨
      y.toRat * unitsPerOne < k * (2 ^ shiftOf units den : ℕ) ∧
        k * (2 ^ shiftOf units den : ℕ) ≤ (units / den : ℚ) := by
  rcases y.toRat_mul_unitsPerOne_cases (shiftOf units den) with ⟨k, hk⟩ | ⟨hpos, hlt⟩
  · exact ⟨k, .inl (by rw [hk]; push_cast; rfl)⟩
  · have hsplit : ((2 ^ 52 : ℤ) : ℚ) * (2 ^ shiftOf units den : ℕ) =
        2 ^ (52 + shiftOf units den) := by
      rw [pow_add]
      push_cast
      rfl
    have hreach : 2 ^ 52 * 2 ^ shiftOf units den * den ≤ units := by
      have hnormal := (shiftOf_spec units hden).2.resolve_left hpos.ne'
      linarith
    refine ⟨2 ^ 52, .inr ⟨by rwa [hsplit], ?_⟩⟩
    rw [le_div_iff₀ (by exact_mod_cast hden)]
    exact_mod_cast hreach

/-- A quotient in range is rounded. -/
theorem rounds_of_ofRatio? (hden : 0 < den) {x : Binary64} (h : ofRatio? num den = some x) :
    Rounds (num / den) x ∧ x.isNegative = false := by
  simp only [ofRatio?, Option.ite_none_left_eq_some, Bool.or_eq_true, decide_eq_true_eq, not_or,
    Nat.not_le, Option.some.injEq] at h
  obtain ⟨⟨-, hrange⟩, rfl⟩ := h
  have hquotient : (num / den : ℚ) * unitsPerOne = (num * unitsPerOne : ℕ) / den := by
    push_cast
    ring
  -- from here on numbers are counted in units
  rw [nearestPattern_eq] at hrange ⊢
  generalize num * unitsPerOne = units at *
  obtain ⟨hfinite, hpositive, hnumber, heven⟩ := of_pattern (significandOf_le units hden)
    ((shiftOf_spec units hden).2.imp_right (le_significandOf hden)) hrange
  generalize (⟨UInt64.ofNat (shiftOf units den * 2 ^ 52 + significandOf units den)⟩ : Binary64)
    = x at *
  have hx : x.toRat * unitsPerOne = significandOf units den * (2 ^ shiftOf units den : ℕ) := by
    rw [toRat_mul_unitsPerOne_of_pos hpositive, hnumber]
    push_cast
    ring
  have hnearest : ∀ y : Binary64, |(num / den : ℚ) - x.toRat| ≤ |(num / den : ℚ) - y.toRat| ∧
      (|(num / den : ℚ) - x.toRat| = |(num / den : ℚ) - y.toRat| → y.toRat ≠ x.toRat →
        Even x.significand) := by
    intro y
    obtain ⟨hle, htie⟩ :=
      nearest_multiple hden (Nat.two_pow_pos (shiftOf units den)) (exists_multiple units hden y)
    rw [← significandOf, ← hx, ← hquotient, ← abs_sub_mul_unitsPerOne,
      ← abs_sub_mul_unitsPerOne] at hle htie
    refine ⟨le_of_mul_le_mul_right hle unitsPerOne_pos, fun heq hne => ?_⟩
    exact heven (htie (by rw [heq]) fun h => hne (mul_right_cancel₀ unitsPerOne_pos.ne' h))
  exact ⟨⟨hfinite, fun y _ => (hnearest y).1, fun y _ => (hnearest y).2⟩, hpositive⟩

/-! ## Rounding a rational -/

theorem roundHalfEven_mul {k : Nat} (hk : 0 < k) (num den : Nat) :
    roundHalfEven (k * num) (k * den) = roundHalfEven num den := by
  have htwice : 2 * (k * num % (k * den)) = k * (2 * (num % den)) := by
    rw [Nat.mul_mod_mul_left]
    ring
  simp only [roundHalfEven, htwice, Nat.mul_div_mul_left _ _ hk, Nat.mul_lt_mul_left hk]

theorem nearestPattern_mul {k : Nat} (hk : 0 < k) (num den : Nat) :
    nearestPattern (k * num) (k * den) = nearestPattern num den := by
  have hshift : shiftOf (k * num * unitsPerOne) (k * den) = shiftOf (num * unitsPerOne) den := by
    rw [shiftOf, Nat.mul_assoc, Nat.mul_div_mul_left _ _ hk, shiftOf]
  rw [nearestPattern_eq, nearestPattern_eq, hshift, significandOf, hshift, Nat.mul_assoc,
    Nat.mul_assoc, roundHalfEven_mul hk, significandOf]

/-- What a quotient is rounded to depends on its value only. -/
theorem ofRatio?_congr {num' den' : Nat} (hden : 0 < den) (hden' : 0 < den')
    (h : num * den' = num' * den) : ofRatio? num den = ofRatio? num' den' := by
  have hpattern : nearestPattern num den = nearestPattern num' den' := by
    rw [← nearestPattern_mul hden' num den, ← nearestPattern_mul hden num' den',
      Nat.mul_comm den' num, h, Nat.mul_comm num' den, Nat.mul_comm den' den]
  rw [ofRatio?, ofRatio?, hpattern]

/-- A number that is not negative, rounded to nearest. -/
def ofRat? (q : ℚ) : Option Binary64 :=
  if q = 0 then some ⟨0⟩ else ofRatio? q.num.toNat q.den

theorem toNat_num_div_den {q : ℚ} (hq : 0 ≤ q) : (q.num.toNat / q.den : ℚ) = q := by
  have hnum : ((q.num.toNat : ℕ) : ℚ) = q.num := by
    exact_mod_cast Int.toNat_of_nonneg (Rat.num_nonneg.mpr hq)
  rw [hnum, Rat.num_div_den]

theorem ofRatio?_eq_ofRat? (hnum : 0 < num) (hden : 0 < den) :
    ofRatio? num den = ofRat? (num / den) := by
  have hpos : (0 : ℚ) < num / den := by positivity
  have hvalue := toNat_num_div_den hpos.le
  rw [ofRat?, if_neg hpos.ne']
  refine ofRatio?_congr hden (num / den : ℚ).den_pos ?_
  rw [div_eq_div_iff (by positivity) (by positivity)] at hvalue
  exact_mod_cast hvalue.symm

/-- A rational is out of range if it is nearer to infinity, or positive and not above half the least
number. -/
theorem ofRat?_eq_none_iff {q : ℚ} (hq : 0 ≤ q) :
    ofRat? q = none ↔ (2 : ℚ) ^ 1024 - 2 ^ 970 ≤ q ∨ 0 < q ∧ q ≤ 2 ^ (-1075 : ℤ) := by
  rcases hq.eq_or_lt with rfl | hpos
  · have hlimit : (2 : ℚ) ^ 970 < 2 ^ 1024 := pow_lt_pow_right₀ one_lt_two (by decide)
    rw [ofRat?, if_pos rfl]
    exact iff_of_false nofun (by simp [hlimit])
  · rw [ofRat?, if_neg hpos.ne', ofRatio?_eq_none_iff _ q.den_pos, toNat_num_div_den hq]
    simp [hpos]

/-- A rational in range is rounded. -/
theorem rounds_of_ofRat? {q : ℚ} (hq : 0 ≤ q) {x : Binary64} (h : ofRat? q = some x) :
    Rounds q x ∧ x.isNegative = false ∧ (q = 0 → x.bits = 0) := by
  rw [ofRat?] at h
  split_ifs at h with hzero
  · obtain rfl := Option.some.inj h
    have hx : toRat ⟨0⟩ = 0 := by
      have hsignificand : significand ⟨0⟩ = 0 := by decide
      rw [toRat, hsignificand, Nat.cast_zero, mul_zero, zero_mul]
    rw [hzero]
    refine ⟨⟨by decide, fun y _ => ?_, fun y _ _ _ => by decide⟩, by decide, fun _ => rfl⟩
    rw [hx, sub_self, abs_zero]
    exact abs_nonneg _
  · obtain ⟨hrounds, hpositive⟩ := rounds_of_ofRatio? q.den_pos h
    rw [toNat_num_div_den hq] at hrounds
    exact ⟨hrounds, hpositive, fun h => absurd h hzero⟩

end Binary64

/-! ## Decimals -/

namespace Decimal

/-- The number that a decimal denotes. -/
def toRat (d : Decimal) : ℚ := d.significand * 10 ^ d.exponent

theorem toRat_nonneg (d : Decimal) : 0 ≤ d.toRat := by
  rw [toRat]
  positivity

/-- The number of digits, with the exponent, bounds a decimal from both sides. -/
theorem toRat_bounds {d : Decimal} (h : d.significand ≠ 0) :
    let digits : ℤ := (Nat.toDigits 10 d.significand).length
    (10 : ℚ) ^ (digits + d.exponent - 1) ≤ d.toRat ∧ d.toRat < 10 ^ (digits + d.exponent) := by
  intro digits
  have hlength : 0 < (Nat.toDigits 10 d.significand).length := Nat.length_toDigits_pos
  have hbelow : d.significand < 10 ^ (Nat.toDigits 10 d.significand).length :=
    (Nat.length_toDigits_le_iff (by decide) hlength).mp le_rfl
  have habove : 10 ^ ((Nat.toDigits 10 d.significand).length - 1) ≤ d.significand := by
    rcases Nat.eq_zero_or_pos ((Nat.toDigits 10 d.significand).length - 1) with hone | hmore
    · rw [hone]
      exact Nat.pos_of_ne_zero h
    · by_contra hlt
      have hle := (Nat.length_toDigits_le_iff (by decide) hmore).mpr (Nat.not_le.mp hlt)
      omega
  have hpower : (0 : ℚ) < 10 ^ d.exponent := by positivity
  constructor
  · have hsum : digits + d.exponent - 1 =
        ((Nat.toDigits 10 d.significand).length - 1 : ℕ) + d.exponent := by omega
    rw [hsum, zpow_add₀ (by norm_num), zpow_natCast, toRat]
    exact mul_le_mul_of_nonneg_right (by exact_mod_cast habove) hpower.le
  · rw [zpow_add₀ (by norm_num), zpow_natCast, toRat]
    exact mul_lt_mul_of_pos_right (by exact_mod_cast hbelow) hpower

end Decimal

namespace Binary64

theorem two_pow_1024_le : (2 : ℚ) ^ 1024 ≤ 10 ^ 310 := by
  have hnat : 2 ^ 1024 ≤ 10 ^ 310 := by decide +kernel
  exact_mod_cast hnat

theorem ten_pow_neg_330_le : (10 : ℚ) ^ (-330 : ℤ) ≤ 2 ^ (-1075 : ℤ) := by
  have hnat : 2 ^ 1075 ≤ 10 ^ 330 := by decide +kernel
  rw [zpow_neg, zpow_neg]
  exact inv_anti₀ (by positivity) (by exact_mod_cast hnat)

/-- What a decimal is rounded to depends on its value only: where its number of digits settles it,
it is out of range. -/
theorem ofDecimal?_eq_ofRat? (d : Decimal) : ofDecimal? d = ofRat? d.toRat := by
  by_cases hzero : d.significand = 0
  · have hvalue : d.toRat = 0 := by rw [Decimal.toRat, hzero, Nat.cast_zero, zero_mul]
    rw [ofDecimal?, if_pos hzero, hvalue, ofRat?, if_pos rfl]
  obtain ⟨habove, hbelow⟩ := Decimal.toRat_bounds hzero
  rw [ofDecimal?, if_neg hzero]
  dsimp only
  have hpos : 0 < d.significand := Nat.pos_of_ne_zero hzero
  split_ifs with hlarge hsmall hexponent
  · refine ((ofRat?_eq_none_iff d.toRat_nonneg).mpr (.inl ?_)).symm
    calc (2 : ℚ) ^ 1024 - 2 ^ 970 ≤ 2 ^ 1024 := sub_le_self _ (by positivity)
      _ ≤ 10 ^ ((310 : ℕ) : ℤ) := by rw [zpow_natCast]; exact two_pow_1024_le
      _ ≤ _ := zpow_le_zpow_right₀ (by norm_num) (by omega)
      _ ≤ d.toRat := habove
  · refine ((ofRat?_eq_none_iff d.toRat_nonneg).mpr (.inr ⟨?_, ?_⟩)).symm
    · rw [Decimal.toRat]
      positivity
    · calc d.toRat ≤ _ := hbelow.le
        _ ≤ 10 ^ (-330 : ℤ) := zpow_le_zpow_right₀ (by norm_num) (by omega)
        _ ≤ 2 ^ (-1075 : ℤ) := ten_pow_neg_330_le
  · have hnum : 0 < d.significand * Nat.pow 10 d.exponent.toNat :=
      Nat.mul_pos hpos (Nat.pow_pos (by decide))
    have hpower : ((Nat.pow 10 d.exponent.toNat : ℕ) : ℚ) = 10 ^ d.exponent := by
      rw [Nat.pow_eq, Nat.cast_pow, ← zpow_natCast, Int.toNat_of_nonneg hexponent]
      rfl
    rw [ofRatio?_eq_ofRat? hnum one_pos, Nat.cast_mul, hpower, Nat.cast_one, div_one, Decimal.toRat]
  · have hden : 0 < Nat.pow 10 (-d.exponent).toNat := Nat.pow_pos (by decide)
    have hpower : ((Nat.pow 10 (-d.exponent).toNat : ℕ) : ℚ) = (10 ^ d.exponent)⁻¹ := by
      rw [Nat.pow_eq, Nat.cast_pow, ← zpow_natCast, Int.toNat_of_nonneg (by omega), zpow_neg]
      rfl
    rw [ofRatio?_eq_ofRat? hpos hden, hpower, div_inv_eq_mul, Decimal.toRat]

end Binary64
end PrefixMatching
