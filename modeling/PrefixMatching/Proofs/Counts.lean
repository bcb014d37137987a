import Mathlib.Algebra.Group.Int.Defs
import Mathlib.Algebra.GroupWithZero.Nat
import PrefixMatching.Proofs.Scans

/-!
# Matchers with counts

A scan takes the units of the elements that it accepts (`taken_scan_eq`) and asks about these
elements and the one after them, unless its limit or the end of the sequence comes first
(`asked_scan_eq`). So all counted matchers are one: between two counts (`takeBetween`) as many
elements are taken as the greater one lets, and the lesser one says how many there must be.

A sequence has at least as many units as elements. To refuse one with too few units saves the
predicate work, and changes nothing about the outcome (`outcome_trialOf_scan_of_length_lt`).
-/

namespace PrefixMatching
namespace Reading

variable {α : Type} {R : Reading α} {p : Int → Bool} {s : List α} {limit min max : Nat}

/-! ## What a scan takes and asks -/

/-- How many units elements occupy. -/
def occupied (elements : List Decoded) : Nat := (elements.map Decoded.width).sum

theorem occupied_cons (d : Decoded) (elements : List Decoded) :
    occupied (d :: elements) = d.extra + 1 + occupied elements := by
  simp [occupied, Decoded.width]

/-- A scan takes the units still owed and those of the elements that it accepts. -/
theorem taken_scanFrom_eq (p : Int → Bool) (owed limit : Nat) (s : List α) :
    (R.scanFrom p owed limit s).taken =
      s.take (owed + occupied (accepted p limit (R.elementsFrom owed s))) := by
  induction s generalizing owed limit with
  | nil => simp [scanFrom]
  | cons unit rest ih =>
    cases owed with
    | succ owed =>
      -- a unit that belongs to an accepted element is taken without asking
      have hrest := ih owed limit
      simp [scanFrom, elementsFrom, hrest, Nat.add_right_comm owed 1]
    | zero =>
      cases limit with
      | zero => simp [scanFrom, accepted, occupied]
      | succ limit =>
        by_cases hp : p (R.decode unit rest).element = true
        · have hrest := ih (R.decode unit rest).extra limit
          have haccepted : accepted p (limit + 1) (R.elementsFrom 0 (unit :: rest)) =
              R.decode unit rest ::
                accepted p limit (R.elementsFrom (R.decode unit rest).extra rest) := by
            simp [elementsFrom, accepted, hp]
          have hunits : 0 + occupied (accepted p (limit + 1) (R.elementsFrom 0 (unit :: rest))) =
              (R.decode unit rest).extra + occupied (accepted p limit
                (R.elementsFrom (R.decode unit rest).extra rest)) + 1 := by
            rw [haccepted, occupied_cons]
            omega
          rw [hunits, List.take_succ_cons, ← hrest]
          simp [scanFrom, hp]
        · simp [scanFrom, elementsFrom, accepted, occupied, hp]

/-- A scan takes the units of the elements that it accepts. -/
theorem taken_scan_eq (p : Int → Bool) (limit : Nat) (s : List α) :
    (R.scan p limit s).taken = s.take (occupied (accepted p limit (R.elements s))) := by
  have h := taken_scanFrom_eq (R := R) p 0 limit s
  rwa [Nat.zero_add] at h

/-- A scan leaves the units after the elements that it accepts. -/
theorem rest_scan_eq (p : Int → Bool) (limit : Nat) (s : List α) :
    (R.scan p limit s).rest = s.drop (occupied (accepted p limit (R.elements s))) := by
  have hparts : (R.scan p limit s).taken ++ (R.scan p limit s).rest = s :=
    R.taken_append_rest_scanFrom p 0 limit s
  have hboth := hparts.trans
    (List.take_append_drop (occupied (accepted p limit (R.elements s))) s).symm
  rw [taken_scan_eq] at hboth
  exact List.append_cancel_left hboth

/-- A scan asks about the elements that it accepts and the next one, but about no more than its
limit. -/
theorem asked_scanFrom_eq (p : Int → Bool) (owed limit : Nat) (s : List α) :
    (R.scanFrom p owed limit s).asked =
      ((R.elementsFrom owed s).take
        (Nat.min limit ((accepted p limit (R.elementsFrom owed s)).length + 1))).map
          Decoded.element := by
  induction s generalizing owed limit with
  | nil => simp [scanFrom, elementsFrom]
  | cons unit rest ih =>
    cases owed with
    | succ owed => exact ih owed limit
    | zero =>
      cases limit with
      | zero => simp [scanFrom]
      | succ limit =>
        by_cases hp : p (R.decode unit rest).element = true
        · have hrest := ih (R.decode unit rest).extra limit
          have hmin : ∀ k, Nat.min (limit + 1) (k + 1 + 1) = Nat.min limit (k + 1) + 1 := by
            intro k
            exact Nat.succ_min_succ limit (k + 1)
          simpa [scanFrom, elementsFrom, accepted, hp, hmin] using hrest
        · have haccepted : accepted p (limit + 1) (R.elementsFrom 0 (unit :: rest)) = [] := by
            simp [elementsFrom, accepted, hp]
          have hone : Nat.min (limit + 1) (0 + 1) = 1 := Nat.min_eq_right (by omega)
          rw [haccepted, List.length_nil, hone]
          simp [scanFrom, elementsFrom, hp]

/-- A scan asks about the elements that it accepts and the next one, but about no more than its
limit. -/
theorem asked_scan_eq (p : Int → Bool) (limit : Nat) (s : List α) :
    (R.scan p limit s).asked =
      ((R.elements s).take
        (Nat.min limit ((accepted p limit (R.elements s)).length + 1))).map Decoded.element :=
  asked_scanFrom_eq p 0 limit s

/-! ## Matchers -/

theorem count_scan_eq (p : Int → Bool) (limit : Nat) (s : List α) :
    (R.scan p limit s).count = (accepted p limit (R.elements s)).length :=
  count_scanFrom p 0 limit s

/-- A scan that accepts no element takes no unit. -/
theorem count_scan_eq_zero_iff : (R.scan p limit s).count = 0 ↔ (R.scan p limit s).taken = [] := by
  constructor
  · intro hcount
    rw [count_scan_eq] at hcount
    rw [taken_scan_eq, List.length_eq_zero_iff.mp hcount]
    rfl
  · intro htaken
    have hcount : (R.scan p limit s).count ≤ (R.scan p limit s).taken.length :=
      R.count_scanFrom_le p 0 limit s
    rw [htaken, List.length_nil] at hcount
    omega

/-- To ask for a least number of elements changes the outcome only. -/
theorem asked_trialOf (r : Scan α) (min : Nat) : (r.trialOf min).asked = r.asked := by
  unfold Scan.trialOf
  split <;> rfl

/-- A scan matches if it accepts enough elements, and splits the sequence after them. -/
theorem outcome_trialOf_scan (p : Int → Bool) (limit min : Nat) (s : List α) :
    ((R.scan p limit s).trialOf min).outcome =
      if (accepted p limit (R.elements s)).length < min then .failed
      else .ok (some (s.take (occupied (accepted p limit (R.elements s)))))
        (s.drop (occupied (accepted p limit (R.elements s)))) := by
  rw [Scan.trialOf, count_scan_eq]
  split
  · rfl
  · rw [← taken_scan_eq, ← rest_scan_eq]
    rfl

/-- Where there are too few units there are too few elements. -/
theorem outcome_trialOf_scan_of_length_lt (hmin : s.length < min) :
    ((R.scan p limit s).trialOf min).outcome = .failed := by
  have hcount : (R.scan p limit s).count ≤ (R.scan p limit s).taken.length :=
    R.count_scanFrom_le p 0 limit s
  have hparts := R.length_scan p limit s
  rw [Scan.trialOf, if_pos (by omega)]

/-- A matcher between two counts splits the sequence after the elements that it accepts. -/
theorem outcome_takeBetween_natCast (hmin : min < UInt64.size) (hmax : max < UInt64.size) :
    (R.takeBetween min max p s).outcome =
      if max < min then .failed else ((R.scan p max s).trialOf min).outcome := by
  have hmin' : (0 : Int) ≤ min ∧ (min : Int) < UInt64.size := by omega
  have hmax' : (0 : Int) ≤ max ∧ (max : Int) < UInt64.size := by omega
  rw [takeBetween, Count.ofInt?_eq, Count.ofInt?_eq, if_pos hmin', if_pos hmax', Int.toNat_natCast,
    Int.toNat_natCast]
  dsimp only
  by_cases horder : max < min
  · simp [horder, Failable.failed, Trial.unasked]
  · by_cases hunits : s.length < min
    · simp [horder, hunits, outcome_trialOf_scan_of_length_lt, Failable.failed, Trial.unasked]
    · simp [horder, hunits]

/-- A matcher between two counts asks what its scan asks, if there are enough units to begin. -/
theorem asked_takeBetween_natCast (hmin : min < UInt64.size) (hmax : max < UInt64.size) :
    (R.takeBetween min max p s).asked =
      if max < min ∨ s.length < min then [] else (R.scan p max s).asked := by
  have hmin' : (0 : Int) ≤ min ∧ (min : Int) < UInt64.size := by omega
  have hmax' : (0 : Int) ≤ max ∧ (max : Int) < UInt64.size := by omega
  rw [takeBetween, Count.ofInt?_eq, Count.ofInt?_eq, if_pos hmin', if_pos hmax', Int.toNat_natCast,
    Int.toNat_natCast]
  dsimp only
  by_cases hrefused : max < min ∨ s.length < min
  · have hrefused' : (decide (max < min) || decide (s.length < min)) = true := by
      simpa using hrefused
    rw [if_pos hrefused, if_pos hrefused']
    rfl
  · have hbegun : ¬ (decide (max < min) || decide (s.length < min)) = true := by
      simpa using hrefused
    rw [if_neg hrefused, if_neg hbegun, asked_trialOf]

/-- Between numbers that are no counts nothing matches, and nothing is asked. -/
theorem takeBetween_of_not_count {min max : Int}
    (h : min < 0 ∨ UInt64.size ≤ min ∨ max < 0 ∨ UInt64.size ≤ max) :
    R.takeBetween min max p s = Failable.failed := by
  rw [takeBetween, Count.ofInt?_eq, Count.ofInt?_eq]
  by_cases hmin : 0 ≤ min ∧ min < UInt64.size
  · have hmax : ¬ (0 ≤ max ∧ max < UInt64.size) := by omega
    rw [if_pos hmin, if_neg hmax]
  · rw [if_neg hmin]

/-- A matcher with a least count only is one whose other count is the largest there is. -/
theorem takeAtLeast_eq_takeBetween (min : Int) :
    R.takeAtLeast min p s = R.takeBetween min Count.largest p s := by
  have hlargest : Count.ofInt? Count.largest = some Count.largest := by decide
  rw [takeAtLeast, takeBetween, hlargest, Count.ofInt?_eq]
  by_cases hmin : 0 ≤ min ∧ min < UInt64.size
  · have hsize : UInt64.size = Count.largest + 1 := rfl
    have horder : ¬ Count.largest < min.toNat := by omega
    rw [if_pos hmin]
    simp [horder]
  · rw [if_neg hmin]

/-- A matcher with a least count only matches if its scan accepts enough elements. -/
theorem outcome_takeAtLeast_natCast (hmin : min < UInt64.size) :
    (R.takeAtLeast min p s).outcome = ((R.scan p Count.largest s).trialOf min).outcome := by
  have hsize : UInt64.size = Count.largest + 1 := rfl
  rw [takeAtLeast_eq_takeBetween, outcome_takeBetween_natCast hmin (by omega), if_neg (by omega)]

/-- A matcher with a greatest count only is one whose other count is zero. -/
theorem takeAtMost_eq_takeBetween (max : Int) : R.takeAtMost max p s = R.takeBetween 0 max p s := by
  have hzero : Count.ofInt? 0 = some 0 := by decide
  rw [takeAtMost, takeBetween, hzero, Count.ofInt?_eq]
  by_cases hmax : 0 ≤ max ∧ max < UInt64.size
  · rw [if_pos hmax]
    simp [Scan.trialOf]
  · rw [if_neg hmax]

/-- A matcher without counts is one whose least count is zero. -/
theorem takeWhile_eq_takeAtLeast : R.takeWhile p s = R.takeAtLeast 0 p s := by
  have hzero : Count.ofInt? 0 = some 0 := by decide
  rw [takeWhile, takeAtLeast, hzero]
  simp [Scan.trialOf]

/-- Counted matchers keep to their counts, whatever the reading, the predicate and the sequence are.

* Between two counts a matcher takes the elements at the start that satisfy the predicate, up to the
  greater count, and splits the sequence where they end. It fails exactly if one of the numbers is
  no count of 64 bits, the counts are the wrong way round or there are too few such elements.
* It asks, in order, about these elements and the next one, as far as the greater count and the
  sequence go. It asks nothing if it can refuse the counts or the number of units.
* To refuse a sequence for its number of units does not change the outcome.
* All other matchers are such matchers, in what they take and in what they ask. -/
theorem counted_matchers_keep_to_counts (R : Reading α) (p : Int → Bool) (s : List α) :
    (∀ min max : Int,
      let noCounts := min < 0 ∨ 2 ^ 64 ≤ min ∨ max < 0 ∨ 2 ^ 64 ≤ max ∨ max < min
      let run := accepted p max.toNat (R.elements s)
      (R.takeBetween min max p s).outcome =
        (if noCounts ∨ run.length < min then .failed
          else .ok (some (s.take (occupied run))) (s.drop (occupied run))) ∧
      (R.takeBetween min max p s).asked =
        if noCounts ∨ s.length < min then []
        else ((R.elements s).take (Nat.min max.toNat (run.length + 1))).map Decoded.element) ∧
    (∀ min limit : Nat, ((R.scan p limit s).trialOf min).outcome =
      if s.length < min then .failed else ((R.scan p limit s).trialOf min).outcome) ∧
    (∀ n : Int,
      R.takeAtLeast n p s = R.takeBetween n (2 ^ 64 - 1) p s ∧
      R.takeAtMost n p s = R.takeBetween 0 n p s ∧
      R.takeExactly n p s = R.takeBetween n n p s) ∧
    R.takeWhile p s = R.takeAtLeast 0 p s := by
  have hsize : (UInt64.size : Int) = 2 ^ 64 := rfl
  refine ⟨fun min max => ?_, fun min limit => ?_, fun n => ?_, takeWhile_eq_takeAtLeast⟩
  · intro noCounts run
    by_cases hcounts : min < 0 ∨ 2 ^ 64 ≤ min ∨ max < 0 ∨ 2 ^ 64 ≤ max
    · have hno : noCounts := by omega
      rw [takeBetween_of_not_count (by omega)]
      simp [hno, Failable.failed, Trial.unasked]
    · obtain ⟨least, rfl⟩ := Int.eq_ofNat_of_zero_le (show 0 ≤ min by omega)
      obtain ⟨greatest, rfl⟩ := Int.eq_ofNat_of_zero_le (show 0 ≤ max by omega)
      have hno : noCounts ↔ greatest < least := by omega
      rw [outcome_takeBetween_natCast (by omega) (by omega),
        asked_takeBetween_natCast (by omega) (by omega), outcome_trialOf_scan, asked_scan_eq]
      simp only [hno, Int.toNat_natCast, Int.ofNat_lt, run]
      refine ⟨?_, trivial⟩
      by_cases horder : greatest < least
      · simp [horder]
      · simp [horder]
  · by_cases hunits : s.length < min
    · rw [if_pos hunits, outcome_trialOf_scan_of_length_lt hunits]
    · rw [if_neg hunits]
  · exact ⟨takeAtLeast_eq_takeBetween n, takeAtMost_eq_takeBetween n, rfl⟩

/-- Of a euro sign and two digits before a letter, one or two elements are cut off after the first
digit, and the second one is not asked about. -/
example : Reading.text.takeBetween 1 2 (fun c => 0x30 ≤ c) [0xE2, 0x82, 0xAC, 0x31, 0x32, 0x61] =
    ⟨.ok (some [0xE2, 0x82, 0xAC, 0x31]) [0x32, 0x61], [0x20AC, 0x31]⟩ := by decide

end Reading
end PrefixMatching
