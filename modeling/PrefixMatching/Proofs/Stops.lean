import PrefixMatching.Reading

/-!
# Where a reading stops

Reading a sequence from its start goes from one element to the next. `Stops` holds of the offsets
where it comes by, and the elements lie between them: an offset that is no stop lies inside an
element that was read at one (`stops_or_inside`), never both (`Stops.end_le`).

Three laws, collected in `Synchronizing`, let a reading be taken up in the middle. Under them

* the look back of `isBoundary` finds exactly the stops (`isBoundary_iff_stops`), and
* a sequence that is cut at a stop has the stops of its two parts (`Stops.drop_iff`,
  `Stops.take_iff`).
-/

namespace PrefixMatching
namespace Reading

variable {α : Type} {R : Reading α} {s : List α} {d : Decoded} {k m n : Nat}

/-! ## The element at an offset -/

/-- The element at an offset is read at the front of the rest from there. -/
theorem decodeAt?_eq_some_iff :
    R.decodeAt? s n = some d ↔ ∃ unit rest, s.drop n = unit :: rest ∧ R.decode unit rest = d := by
  unfold decodeAt?
  cases s.drop n with
  | nil => simp
  | cons unit rest =>
    constructor
    · intro h
      exact ⟨unit, rest, rfl, Option.some.inj h⟩
    · rintro ⟨_, _, h, rfl⟩
      cases h
      rfl

/-- Offsets into a rest count from where it begins. -/
theorem decodeAt?_drop (s : List α) (n k : Nat) :
    R.decodeAt? (s.drop n) k = R.decodeAt? s (n + k) := by
  rw [decodeAt?, decodeAt?, List.drop_drop]

/-- There is an element at every offset before the end. -/
theorem exists_decodeAt?_of_lt (h : n < s.length) : ∃ d, R.decodeAt? s n = some d := by
  rw [decodeAt?, List.drop_eq_getElem_cons h]
  exact ⟨_, rfl⟩

/-- An element ends inside the sequence. -/
theorem end_le_length (h : R.decodeAt? s n = some d) : n + d.width ≤ s.length := by
  obtain ⟨unit, rest, hdrop, rfl⟩ := decodeAt?_eq_some_iff.mp h
  have hextra := R.extra_le unit rest
  have hlen := congrArg List.length hdrop
  rw [List.length_drop, List.length_cons] at hlen
  rw [Decoded.width]
  omega

/-- An element is read before the end of the sequence. -/
theorem lt_length_of_decodeAt? (h : R.decodeAt? s n = some d) : n < s.length := by
  have hend := end_le_length h
  rw [Decoded.width] at hend
  omega

/-! ## Stops -/

/-- The offsets at which reading from the start stops: the start itself, and the end of every
element that is read at a stop. -/
inductive Stops (R : Reading α) (s : List α) : Nat → Prop where
  | start : Stops R s 0
  | next {n : Nat} {d : Decoded} :
      Stops R s n → R.decodeAt? s n = some d → Stops R s (n + d.width)

namespace Stops

/-- Reading stops inside the sequence or at its end. -/
theorem le_length (h : R.Stops s n) : n ≤ s.length := by
  cases h with
  | start => exact Nat.zero_le _
  | next _ hd => exact end_le_length hd

/-- No stop lies inside an element that is read at a stop: the stops after it begin at its end. -/
theorem end_le (hm : R.Stops s m) (hd : R.decodeAt? s m = some d) (hn : R.Stops s n)
    (hmn : m < n) : m + d.width ≤ n := by
  -- Of two stops the greater one was reached from a stop before it, which is compared with the
  -- smaller one; so the induction is on the greater one, whichever of the two that is.
  induction n using Nat.strongRecOn generalizing m d with
  | ind n ih =>
    cases hn with
    | start => omega
    | @next n' d' hn' hd' =>
      rcases Nat.lt_trichotomy m n' with hlt | rfl | hgt
      · have hstep := ih n' (by rw [Decoded.width]; omega) hm hd hn' hlt
        omega
      · rw [hd] at hd'
        cases hd'
        exact Nat.le_refl _
      · have hstep := ih m hmn hn' hd' hm hgt
        omega

/-- Reading the rest after a stop goes on with the stops of the whole. -/
theorem add (hn : R.Stops s n) (hk : R.Stops (s.drop n) k) : R.Stops s (n + k) := by
  induction hk with
  | start => exact hn
  | next _ hd ih =>
    rw [decodeAt?_drop] at hd
    exact Nat.add_assoc n _ _ ▸ ih.next hd

end Stops

/-- Every offset is a stop or lies inside an element that is read at a stop. -/
theorem stops_or_inside (h : n ≤ s.length) :
    R.Stops s n ∨ ∃ m d, R.Stops s m ∧ R.decodeAt? s m = some d ∧ m < n ∧ n < m + d.width := by
  induction n with
  | zero => exact .inl .start
  | succ n ih =>
    rcases ih (by omega) with hn | ⟨m, d, hm, hd, hmn, hend⟩
    · obtain ⟨d, hd⟩ := exists_decodeAt?_of_lt (R := R) (show n < s.length by omega)
      by_cases hextra : d.extra = 0
      · have hnext := hn.next hd
        rw [Decoded.width, hextra] at hnext
        exact .inl hnext
      · exact .inr ⟨n, d, hn, hd, by omega, by rw [Decoded.width]; omega⟩
    · by_cases hlast : n + 1 = m + d.width
      · exact .inl (hlast ▸ hm.next hd)
      · exact .inr ⟨m, d, hm, hd, by omega, by omega⟩

/-- Reading stops at the end of the sequence. -/
theorem stops_length (s : List α) : R.Stops s s.length := by
  rcases stops_or_inside (R := R) (Nat.le_refl s.length) with h | ⟨m, d, -, hd, -, hend⟩
  · exact h
  · have := end_le_length hd
    omega

/-- The rest after a stop has the stops of the whole. -/
theorem Stops.drop_iff (hn : R.Stops s n) : R.Stops (s.drop n) k ↔ R.Stops s (n + k) := by
  refine ⟨hn.add, fun h => ?_⟩
  have hk : k ≤ (s.drop n).length := by
    have := h.le_length
    rw [List.length_drop]
    omega
  -- inside an element of the rest, `n + k` would lie inside an element of the whole
  rcases stops_or_inside (R := R) hk with hk | ⟨m, d, hm, hd, hmk, hend⟩
  · exact hk
  · rw [decodeAt?_drop] at hd
    have := (hn.add hm).end_le hd h (by omega)
    omega

/-! ## Boundaries -/

/-- An element reaches past an offset if it is longer than what lies between. -/
theorem passes_eq_true_iff {reach : Nat} :
    R.passes s n reach = true ↔ ∃ d, R.decodeAt? s n = some d ∧ reach < d.width := by
  unfold passes
  cases R.decodeAt? s n with
  | none => simp
  | some d => simp

/-- A boundary lies in no element that starts within the look back. -/
theorem isBoundary_eq_true_iff :
    R.isBoundary s n = true ↔ n ≤ s.length ∧ ∀ m d, R.decodeAt? s m = some d → m < n →
      n ≤ m + R.lookBack → m + d.width ≤ n := by
  unfold isBoundary
  rw [Bool.and_eq_true, decide_eq_true_eq, List.all_eq_true]
  refine and_congr_right fun _ => ⟨fun h m d hd hmn hback => ?_, fun h back hback => ?_⟩
  · have hm := h (n - m) (List.mem_range'_1.mpr (by omega))
    rw [Bool.or_eq_true, decide_eq_true_eq, Bool.not_eq_true', show n - (n - m) = m by omega] at hm
    rcases hm with hm | hm
    · omega
    · have hreach : ¬ n - m < d.width := by
        intro hlt
        rw [passes_eq_true_iff.mpr ⟨d, hd, hlt⟩] at hm
        cases hm
      omega
  · rw [List.mem_range'_1] at hback
    rw [Bool.or_eq_true, decide_eq_true_eq, Bool.not_eq_true', ← Bool.not_eq_true,
      passes_eq_true_iff]
    by_cases hshort : n < back
    · exact .inl hshort
    · refine .inr ?_
      rintro ⟨d, hd, hreach⟩
      have := h (n - back) d hd (by omega) (by omega)
      omega

/-! ## Readings that can be taken up in the middle -/

/-- Readings of which every part between two stops can be read on its own. -/
class Synchronizing (R : Reading α) : Prop where
  /-- The look back reaches the start of every element. -/
  extra_le_lookBack (unit : α) (rest : List α) : (R.decode unit rest).extra ≤ R.lookBack
  /-- Read on its own, every unit inside an element is an element. -/
  extra_eq_zero_of_inside {unit : α} {rest : List α} {i : Nat} {d : Decoded} :
    i < (R.decode unit rest).extra → R.decodeAt? rest i = some d → d.extra = 0
  /-- What comes after an element does not decide about it. -/
  decode_take {unit : α} {rest : List α} {n : Nat} :
    (R.decode unit rest).extra ≤ n → R.decode unit (rest.take n) = R.decode unit rest

instance (value : α → Int) : Synchronizing (units value) where
  extra_le_lookBack _ _ := Nat.le_refl _
  extra_eq_zero_of_inside h _ := absurd h (Nat.not_lt_zero _)
  decode_take _ := rfl

section Synchronizing

variable [R.Synchronizing]

/-- Read on its own, every unit inside an element is an element. -/
theorem extra_eq_zero_of_inside {d' : Decoded} (hd : R.decodeAt? s m = some d) (hmn : m < n)
    (hnd : n < m + d.width) (hd' : R.decodeAt? s n = some d') : d'.extra = 0 := by
  obtain ⟨unit, rest, hdrop, rfl⟩ := decodeAt?_eq_some_iff.mp hd
  have hrest : R.decodeAt? rest (n - (m + 1)) = some d' := by
    have htail : rest = s.drop (m + 1) := by
      rw [← List.drop_drop, hdrop, List.drop_one, List.tail_cons]
    rw [htail, decodeAt?_drop, ← hd']
    congr 1
    omega
  have hinside : n - (m + 1) < (R.decode unit rest).extra := by
    rw [Decoded.width] at hnd
    omega
  exact Synchronizing.extra_eq_zero_of_inside hinside hrest

/-- An element is read alike in every beginning of the sequence that holds all of it. -/
theorem decodeAt?_take (hd : R.decodeAt? s m = some d) (hn : m + d.width ≤ n) :
    R.decodeAt? (s.take n) m = some d := by
  obtain ⟨unit, rest, hdrop, rfl⟩ := decodeAt?_eq_some_iff.mp hd
  rw [Decoded.width] at hn
  obtain ⟨j, hj⟩ : ∃ j, n - m = j + 1 := ⟨n - m - 1, by omega⟩
  rw [decodeAt?_eq_some_iff]
  refine ⟨unit, rest.take j, ?_, Synchronizing.decode_take (by omega)⟩
  rw [List.drop_take, hdrop, hj, List.take_succ_cons]

/-- The units inside an element are read one by one. -/
theorem stops_drop_of_inside (hd : R.decodeAt? s m = some d) (hmn : m < n)
    (hk : n + k ≤ m + d.width) : R.Stops (s.drop n) k := by
  induction k with
  | zero => exact .start
  | succ k ih =>
    have hend := end_le_length hd
    obtain ⟨d', hd'⟩ := exists_decodeAt?_of_lt (R := R) (show n + k < s.length by omega)
    have hextra := extra_eq_zero_of_inside hd (by omega) (by omega) hd'
    rw [← decodeAt?_drop] at hd'
    have hnext := (ih (by omega)).next hd'
    rw [Decoded.width, hextra] at hnext
    exact hnext

/-- The stops up to `n` need nothing after `n`. -/
theorem Stops.take (hk : R.Stops s k) (hkn : k ≤ n) : R.Stops (s.take n) k := by
  induction hk with
  | start => exact .start
  | next _ hd ih => exact (ih (by omega)).next (decodeAt?_take hd hkn)

/-- The part before a stop has the stops of the whole. -/
theorem Stops.take_iff (hn : R.Stops s n) (hkn : k ≤ n) : R.Stops (s.take n) k ↔ R.Stops s k := by
  refine ⟨fun h => ?_, fun h => h.take hkn⟩
  -- inside an element of the whole, `k` would lie inside an element of the part
  obtain hk | ⟨m, d, hm, hd, hmk, hend⟩ :=
    stops_or_inside (R := R) (Nat.le_trans hkn hn.le_length)
  · exact hk
  · have hdn := hm.end_le hd hn (by omega)
    have := (hm.take (by omega)).end_le (decodeAt?_take hd hdn) h hmk
    omega

/-- A short look back finds exactly the offsets at which reading from the start stops. -/
theorem isBoundary_iff_stops : R.isBoundary s n = true ↔ R.Stops s n := by
  rw [isBoundary_eq_true_iff]
  constructor
  · rintro ⟨hn, hback⟩
    rcases stops_or_inside hn with h | ⟨m, d, -, hd, hmn, hend⟩
    · exact h
    · obtain ⟨unit, rest, -, rfl⟩ := decodeAt?_eq_some_iff.mp hd
      have hlong := Synchronizing.extra_le_lookBack (R := R) unit rest
      rw [Decoded.width] at hend
      have := hback m _ hd hmn (by omega)
      rw [Decoded.width] at this
      omega
  · intro h
    refine ⟨h.le_length, fun m d hd hmn _ => ?_⟩
    -- an element of more than one unit is read at a stop, for no unit inside another one starts it
    rcases stops_or_inside (R := R) (s := s) (show m ≤ s.length by
      have := lt_length_of_decodeAt? hd; omega) with hm | ⟨m', d', _, hd', hm'm, hend⟩
    · exact hm.end_le hd h hmn
    · have hextra := extra_eq_zero_of_inside hd' hm'm hend hd
      rw [Decoded.width, hextra]
      omega

end Synchronizing
end Reading
end PrefixMatching
