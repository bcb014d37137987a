import Mathlib.Data.List.TakeWhile
import PrefixMatching.Proofs.Segments

/-!
# What a scan finds

A scan accepts the longest run of elements at the start that satisfy its predicate, up to its limit
(`accepted`). What it takes, read on its own, consists of exactly these elements
(`elements_taken_scan`), and it counts them (`count_scan`).

So the scan of all elements up to a limit stops where that many elements end. Stops are told apart
by the number of elements before them (`Stops.eq_of_length_take`), hence each stop is where the scan
for some number of elements ends (`exists_takeExactly_all_iff`).
-/

namespace PrefixMatching
namespace Reading

variable {α : Type} {R : Reading α} {p : Int → Bool} {s : List α} {d : Decoded}
  {owed limit m n : Nat}

/-- Those of the elements that a scan accepts: the longest run at the start that satisfies `p`, up
to the limit. -/
def accepted (p : Int → Bool) (limit : Nat) (elements : List Decoded) : List Decoded :=
  (elements.takeWhile fun d => p d.element).take limit

theorem accepted_all (limit : Nat) (elements : List Decoded) :
    accepted (fun _ => true) limit elements = elements.take limit := by
  rw [accepted, List.takeWhile_eq_self_iff.mpr fun _ _ => rfl]

theorem accepted_zero (elements : List Decoded) : accepted p 0 elements = [] := List.take_zero

/-- An element that is accepted, and those that are accepted after it. -/
theorem accepted_cons_of_pos (hp : p d.element = true) (elements : List Decoded) :
    accepted p (limit + 1) (d :: elements) = d :: accepted p limit elements := by
  simp [accepted, hp]

/-- Nothing is accepted from an element on that is not. -/
theorem accepted_cons_of_neg (hp : p d.element = false) (elements : List Decoded) :
    accepted p limit (d :: elements) = [] := by
  simp [accepted, hp]

/-- A scan counts the elements that it accepts. -/
theorem count_scanFrom (p : Int → Bool) (owed limit : Nat) (s : List α) :
    (R.scanFrom p owed limit s).count = (accepted p limit (R.elementsFrom owed s)).length := by
  induction s generalizing owed limit with
  | nil => simp [scanFrom, elementsFrom, accepted]
  | cons unit rest ih =>
    cases owed with
    | succ owed => exact ih owed limit
    | zero =>
      cases limit with
      | zero => rfl
      | succ limit =>
        rw [scanFrom, elementsFrom, accepted, List.takeWhile_cons]
        dsimp only
        split
        · rw [ih, List.take_succ_cons, List.length_cons]
          rfl
        · rfl

/-- There are no more elements than units. -/
theorem length_elementsFrom_le (owed : Nat) (s : List α) :
    (R.elementsFrom owed s).length ≤ s.length := by
  induction s generalizing owed with
  | nil => exact Nat.le_refl _
  | cons unit rest ih =>
    cases owed with
    | zero => exact Nat.succ_le_succ (ih _)
    | succ owed => exact Nat.le_succ_of_le (ih owed)

section Synchronizing

variable [R.Synchronizing]

/-- An element is read in what a scan takes as it is read in the whole. -/
theorem decode_taken_scanFrom (unit : α) (rest : List α) :
    R.decode unit (R.scanFrom p (R.decode unit rest).extra limit rest).taken =
      R.decode unit rest := by
  obtain ⟨k, hk, -⟩ :=
    exists_stops_scanFrom (R := R) p (R.decode unit rest).extra limit rest (R.extra_le unit rest)
  have hparts := R.taken_append_rest_scanFrom p (R.decode unit rest).extra limit rest
  have htaken := List.prefix_iff_eq_take.mp ⟨_, hparts⟩
  rw [htaken]
  exact Synchronizing.decode_take (by omega)

/-- What a scan takes, after the units still owed, are the elements that it accepts. -/
theorem elementsFrom_taken_scanFrom (p : Int → Bool) (owed limit : Nat) (s : List α) :
    R.elementsFrom owed (R.scanFrom p owed limit s).taken =
      accepted p limit (R.elementsFrom owed s) := by
  induction s generalizing owed limit with
  | nil => simp [scanFrom, elementsFrom, accepted]
  | cons unit rest ih =>
    cases owed with
    | succ owed => exact ih owed limit
    | zero =>
      cases limit with
      | zero => rfl
      | succ limit =>
        rw [scanFrom, accepted, elementsFrom, List.takeWhile_cons]
        dsimp only
        split
        · rw [elementsFrom, decode_taken_scanFrom, ih, List.take_succ_cons]
          rfl
        · rfl

/-- Read on its own, what a scan takes consists of the elements that it accepted. -/
theorem elements_taken_scan (p : Int → Bool) (limit : Nat) (s : List α) :
    R.elements (R.scan p limit s).taken = accepted p limit (R.elements s) :=
  elementsFrom_taken_scanFrom p 0 limit s

/-- A scan counts the elements of what it takes. -/
theorem count_scan (p : Int → Bool) (limit : Nat) (s : List α) :
    (R.scan p limit s).count = R.length (R.scan p limit s).taken := by
  rw [length, elements_taken_scan]
  exact count_scanFrom p 0 limit s

/-! ## Scanning a number of elements -/

/-- No two stops have the same number of elements before them. -/
theorem Stops.eq_of_length_take (hm : R.Stops s m) (hn : R.Stops s n)
    (h : R.length (s.take m) = R.length (s.take n)) : m = n := by
  rcases Nat.lt_trichotomy m n with hlt | heq | hgt
  · have := hm.length_take_lt hlt hn.le_length
    omega
  · exact heq
  · have := hn.length_take_lt hgt hm.le_length
    omega

/-- A scan of all elements finds as many as there are, up to the limit. -/
theorem count_scan_all (limit : Nat) (s : List α) :
    (R.scan (fun _ => true) limit s).count = min limit (R.length s) := by
  rw [count_scan, length, elements_taken_scan, accepted_all, List.length_take, length]

/-- A scan of all elements ends at the stop after those that it found. -/
theorem exists_stops_scan_all (limit : Nat) (s : List α) :
    ∃ n, R.Stops s n ∧ R.length (s.take n) = min limit (R.length s) ∧
      (R.scan (fun _ => true) limit s).trial.outcome = .ok (some (s.take n)) (s.drop n) := by
  rcases isSplit_trial_scan (R := R) (fun _ => true) limit s with h | ⟨n, hn, h⟩
  · cases h
  · have htaken : (R.scan (fun _ => true) limit s).taken = s.take n :=
      Option.some.inj (Match.ok.inj h).1
    refine ⟨n, hn, ?_, h⟩
    rw [← htaken, ← count_scan, count_scan_all]

/-- Exactly `n` elements, whatever they are, can be taken where there are that many. -/
theorem outcome_takeExactly_all (hn : n < UInt64.size) (s : List α) :
    (R.takeExactly n (fun _ => true) s).outcome =
      if R.length s < n then .failed else (R.scan (fun _ => true) n s).trial.outcome := by
  have hcount := count_scan_all (R := R) n s
  have hunits : R.length s ≤ s.length := length_elementsFrom_le 0 s
  rw [takeExactly, takeBetween, Count.ofInt?_eq, if_pos (by omega), Int.toNat_natCast]
  dsimp only
  by_cases hlength : R.length s < n
  · rw [if_pos hlength]
    -- too few units or too few elements
    split
    · rfl
    · rw [Scan.trialOf, if_pos (by omega)]
  · have hlong : ¬ (decide (n < n) || decide (s.length < n)) = true := by
      simp only [Bool.or_eq_true, decide_eq_true_eq]
      omega
    rw [if_neg hlength, if_neg hlong, Scan.trialOf, if_neg (by omega)]

/-- To take a number of elements, whatever they are, is to split at the stop after them. -/
theorem takeExactly_all_eq_ok_iff {k : Int} {matched : Option (List α)} {rest : List α} :
    (R.takeExactly k (fun _ => true) s).outcome = .ok matched rest ↔
      ∃ n, R.Stops s n ∧ k = R.length (s.take n) ∧ k < UInt64.size ∧
        matched = some (s.take n) ∧ rest = s.drop n := by
  constructor
  · intro h
    by_cases hk : 0 ≤ k ∧ k < UInt64.size
    · obtain ⟨count, rfl⟩ := Int.eq_ofNat_of_zero_le hk.1
      obtain ⟨n, hn, hlength, hscan⟩ := exists_stops_scan_all (R := R) count s
      rw [outcome_takeExactly_all (by omega), hscan] at h
      split at h
      · cases h
      · cases h
        exact ⟨n, hn, by omega, hk.2, rfl, rfl⟩
    · rw [takeExactly, takeBetween, Count.ofInt?_eq, if_neg hk] at h
      cases h
  · rintro ⟨n, hn, rfl, hlt, rfl, rfl⟩
    have hwhole := hn.length_eq_add
    obtain ⟨n', hn', hlength, hscan⟩ := exists_stops_scan_all (R := R) (R.length (s.take n)) s
    -- both stops have the same number of elements before them
    obtain rfl : n' = n := hn'.eq_of_length_take hn (by omega)
    rw [outcome_takeExactly_all (by omega), if_neg (by omega), hscan]

/-- The number of elements to be taken up to an offset. -/
theorem takeExactly_all_eq_ok_length_iff {k : Int} {matched : Option (List α)} {rest : List α} :
    (R.takeExactly k (fun _ => true) s).outcome = .ok matched rest ∧
        matched.map List.length = some n ↔
      R.Stops s n ∧ k = R.length (s.take n) ∧ k < UInt64.size ∧
        matched = some (s.take n) ∧ rest = s.drop n := by
  rw [takeExactly_all_eq_ok_iff]
  constructor
  · rintro ⟨⟨n', hstop, hk, hlt, rfl, rfl⟩, hlength⟩
    rw [Option.map_some, List.length_take_of_le hstop.le_length] at hlength
    cases hlength
    exact ⟨hstop, hk, hlt, rfl, rfl⟩
  · rintro ⟨hstop, hk, hlt, rfl, rfl⟩
    refine ⟨⟨n, hstop, hk, hlt, rfl, rfl⟩, ?_⟩
    rw [Option.map_some, List.length_take_of_le hstop.le_length]

/-- Each stop is where some number of elements ends. -/
theorem exists_takeExactly_all_iff (hs : s.length < UInt64.size) {matched : Option (List α)}
    {rest : List α} :
    (∃ k : Int, (R.takeExactly k (fun _ => true) s).outcome = .ok matched rest ∧
        matched.map List.length = some n) ↔
      R.Stops s n ∧ matched = some (s.take n) ∧ rest = s.drop n := by
  constructor
  · rintro ⟨k, h⟩
    obtain ⟨hstop, -, -, hparts⟩ := takeExactly_all_eq_ok_length_iff.mp h
    exact ⟨hstop, hparts⟩
  · rintro ⟨hstop, hparts⟩
    have hunits : R.length (s.take n) ≤ (s.take n).length := length_elementsFrom_le 0 _
    rw [List.length_take_of_le hstop.le_length] at hunits
    have hle := hstop.le_length
    exact ⟨R.length (s.take n),
      takeExactly_all_eq_ok_length_iff.mpr ⟨hstop, rfl, by omega, hparts⟩⟩

end Synchronizing
end Reading
end PrefixMatching
