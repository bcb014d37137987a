/-!
# Element counts

Counts are given as integers. Only those that fit a 64-bit size are counts; a matcher that is
given any other number fails.
-/

namespace PrefixMatching
namespace Count

/-- The largest count. -/
def largest : Nat := UInt64.size - 1

/-- An integer as a count, unless it is negative or too large. -/
def ofInt? (n : Int) : Option Nat :=
  if 0 ≤ n ∧ n ≤ largest then some n.toNat else none

/-- The counts are the numbers of 64 bits. -/
theorem ofInt?_eq (n : Int) :
    ofInt? n = if 0 ≤ n ∧ n < UInt64.size then some n.toNat else none := by
  have hlargest : largest + 1 = UInt64.size := rfl
  by_cases h : 0 ≤ n ∧ n < UInt64.size
  · rw [if_pos h, ofInt?, if_pos (by omega)]
  · rw [if_neg h, ofInt?, if_neg (by omega)]

end Count
end PrefixMatching
