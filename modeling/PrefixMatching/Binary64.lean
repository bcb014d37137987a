/-!
# Decimals as binary64 numbers

A decimal is rounded to the nearest finite binary64 number, a tie to the one with the even
significand. The numbers are counted in units of `2^-1074`, the least positive one: a number with
significand `sig` is `sig * 2^shift` units, and its bit pattern is `shift * 2^52 + sig`. This
covers subnormal numbers, whose shift is zero, and a significand that rounding carries to `2^53`.
-/

namespace PrefixMatching

/-- The number `significand * 10 ^ exponent`. -/
structure Decimal where
  significand : Nat
  exponent : Int
deriving DecidableEq, Repr

/-- A binary64 number as its bit pattern. -/
structure Binary64 where
  bits : UInt64
deriving DecidableEq, Repr

namespace Binary64

/-- The integer nearest to `num / den`, of two equally near ones the even. -/
def roundHalfEven (num den : Nat) : Nat :=
  let floor := num / den
  let twice := 2 * (num % den)
  if twice < den then floor
  else if den < twice then floor + 1
  else floor + floor % 2

/-- The pattern of infinity, which is the first that is no finite number. -/
def infinity : Nat := 2047 * Nat.pow 2 52

/-- The pattern of the number nearest to `num / den`, without a bound on the exponent. -/
def nearestPattern (num den : Nat) : Nat :=
  let scaled := num * Nat.pow 2 1074
  let shift := (scaled / den).log2 - 52
  shift * Nat.pow 2 52 + roundHalfEven scaled (den * Nat.pow 2 shift)

/-- How many units of `2^-1074` the number of a pattern is. -/
def units (pattern : Nat) : Nat :=
  let normal := pattern / Nat.pow 2 52
  (pattern % Nat.pow 2 52 + if normal = 0 then 0 else Nat.pow 2 52) * Nat.pow 2 (normal - 1)

/-- How many units of `2^-1074` the number nearest to an integer is. -/
def unitsOf (n : Nat) : Nat := units (nearestPattern n 1)

/-- The number nearest to a positive `num / den`, unless that is infinity or zero. -/
def ofRatio? (num den : Nat) : Option Binary64 :=
  let pattern := nearestPattern num den
  if pattern = 0 || infinity ≤ pattern then none else some ⟨UInt64.ofNat pattern⟩

/-- The number nearest to a decimal. None if the decimal is too large, or so small that it would
become zero. Zero itself is exact. A decimal of at least `10^310`, or below `10^-330`, is settled by
its number of digits, without its power of ten. -/
def ofDecimal? (d : Decimal) : Option Binary64 :=
  if d.significand = 0 then some ⟨0⟩
  else
    let digits : Int := (Nat.toDigits 10 d.significand).length
    if 310 < digits + d.exponent then none
    else if digits + d.exponent < -329 then none
    else if 0 ≤ d.exponent then ofRatio? (d.significand * Nat.pow 10 d.exponent.toNat) 1
    else ofRatio? d.significand (Nat.pow 10 (-d.exponent).toNat)

end Binary64
end PrefixMatching
