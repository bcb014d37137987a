import PrefixMatching.Proofs.Counts

/-!
# The passes of a scan

A scan goes through a sequence in passes, and each pass moves on behind one accepted element. Where
it is, is an offset and the number of elements that it accepted so far (`ScanReaches`). The offset
stays inside the sequence, and there are no more elements than units or than the limit lets
(`ScanReaches.bounds`), so a sequence can be cut where its scan is.

The elements accepted so far and those that are still to be accepted are the ones that the whole
scan accepts (`ScanReaches.exists_accepted_eq`). Therefore the scan is the cut where no further pass
is possible (`ScanReaches.scan_eq_of_ends`), and there always is such a place
(`exists_scanReaches_ends`).
-/

namespace PrefixMatching
namespace Reading

variable {α : Type} {R : Reading α} {p : Int → Bool} {s : List α} {limit offset count : Nat}

/-- Where the passes of a scan come by: the start, and behind each element that is accepted while
the limit is not reached. -/
inductive ScanReaches (R : Reading α) (p : Int → Bool) (limit : Nat) (s : List α) :
    (offset count : Nat) → Prop where
  | start : ScanReaches R p limit s 0 0
  | accept {offset count : Nat} {d : Decoded} : ScanReaches R p limit s offset count →
      count < limit → R.decodeAt? s offset = some d → p d.element = true →
      ScanReaches R p limit s (offset + d.width) (count + 1)

/-- Whether no further pass is possible: the limit or the end of the sequence is reached, or the
next element is not accepted. -/
def ScanEnds (R : Reading α) (p : Int → Bool) (limit : Nat) (s : List α) (offset count : Nat) :
    Prop :=
  ∀ d, count < limit → R.decodeAt? s offset = some d → p d.element = false

/-! ## Bounds -/

/-- A scan never leaves its sequence, and accepts no more elements than it has passed units. -/
theorem ScanReaches.bounds (h : R.ScanReaches p limit s offset count) :
    offset ≤ s.length ∧ count ≤ min offset limit := by
  induction h with
  | start => exact ⟨Nat.zero_le _, Nat.zero_le _⟩
  | @accept offset count d _ hlimit hd _ ih =>
    have hend := end_le_length hd
    have hwidth : 1 ≤ d.width := Nat.succ_le_succ (Nat.zero_le _)
    omega

/-! ## What is accepted -/

/-- The elements accepted so far are the first ones that the scan accepts, and the others are those
accepted from here on. -/
theorem ScanReaches.exists_accepted_eq (h : R.ScanReaches p limit s offset count) :
    ∃ before, before.length = count ∧ occupied before = offset ∧
      accepted p limit (R.elements s) =
        before ++ accepted p (limit - count) (R.elements (s.drop offset)) := by
  induction h with
  | start => exact ⟨[], rfl, rfl, rfl⟩
  | @accept offset count d _ hlimit hd hp ih =>
    obtain ⟨before, hlength, hunits, heq⟩ := ih
    have hfront : R.decodeAt? (s.drop offset) 0 = some d := by rw [decodeAt?_drop]; exact hd
    have hleft : limit - count = limit - (count + 1) + 1 := by omega
    rw [elements_eq_cons hfront, hleft, accepted_cons_of_pos hp, List.drop_drop] at heq
    refine ⟨before ++ [d], ?_, ?_, ?_⟩
    · rw [List.length_append, hlength, List.length_singleton]
    · simp [occupied, ← hunits]
    · rw [heq, List.append_assoc, List.singleton_append]

/-- Where no further pass is possible nothing more is accepted. -/
theorem accepted_eq_nil_of_ends (h : R.ScanEnds p limit s offset count) :
    accepted p (limit - count) (R.elements (s.drop offset)) = [] := by
  by_cases hlimit : count < limit
  · cases hd : R.decodeAt? s offset with
    | none =>
      -- the end of the sequence is reached, for behind every other offset there is an element
      have hend : s.length ≤ offset := by
        by_contra hlt
        obtain ⟨d, hsome⟩ := exists_decodeAt?_of_lt (R := R) (Nat.lt_of_not_le hlt)
        rw [hd] at hsome
        cases hsome
      rw [List.drop_of_length_le hend]
      exact List.take_nil
    | some d =>
      have hfront : R.decodeAt? (s.drop offset) 0 = some d := by rw [decodeAt?_drop]; exact hd
      rw [elements_eq_cons hfront]
      exact accepted_cons_of_neg (h d hlimit hd) _
  · have hnone : limit - count = 0 := by omega
    rw [hnone, accepted_zero]

/-! ## Where a scan ends -/

/-- A scan is the cut where no further pass is possible. -/
theorem ScanReaches.scan_eq_of_ends (h : R.ScanReaches p limit s offset count)
    (hend : R.ScanEnds p limit s offset count) :
    (R.scan p limit s).taken = s.take offset ∧ (R.scan p limit s).count = count ∧
      (R.scan p limit s).rest = s.drop offset := by
  obtain ⟨before, hlength, hunits, heq⟩ := h.exists_accepted_eq
  rw [accepted_eq_nil_of_ends hend, List.append_nil] at heq
  rw [taken_scan_eq, count_scan_eq, rest_scan_eq, heq]
  exact ⟨by rw [hunits], hlength, by rw [hunits]⟩

/-- From wherever a scan is, its passes come to an end. -/
theorem ScanReaches.exists_ends (h : R.ScanReaches p limit s offset count) :
    ∃ offset' count', R.ScanReaches p limit s offset' count' ∧
      R.ScanEnds p limit s offset' count' := by
  -- every pass takes one of the elements that the limit still lets
  induction hn : limit - count generalizing offset count with
  | zero =>
    refine ⟨offset, count, h, fun d hlimit => ?_⟩
    omega
  | succ n ih =>
    by_cases hend : R.ScanEnds p limit s offset count
    · exact ⟨offset, count, h, hend⟩
    · simp only [ScanEnds, not_forall, Bool.not_eq_false] at hend
      obtain ⟨d, hlimit, hd, hp⟩ := hend
      exact ih (h.accept hlimit hd hp) (by omega)

/-- The passes of a scan come to an end. -/
theorem exists_scanReaches_ends (R : Reading α) (p : Int → Bool) (limit : Nat) (s : List α) :
    ∃ offset count, R.ScanReaches p limit s offset count ∧ R.ScanEnds p limit s offset count :=
  ScanReaches.exists_ends .start

end Reading
end PrefixMatching
