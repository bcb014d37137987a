import PrefixMatching.Proofs.Stops
import PrefixMatching.Proofs.Utf8.Boundaries

/-!
# Cutting a sequence in two

A cut at a stop keeps the elements: those of the two parts are those of the whole. A cut anywhere
else goes through an element, and then the parts have more elements than the whole, for each part
reads some of its own off the element that was cut. So the number of elements alone tells where a
sequence may be cut (`splitAt?_isSome_iff_elements`, `splitAt?_isSome_iff_length`).
-/

namespace PrefixMatching
namespace Reading

variable {α : Type} {R : Reading α} {s : List α} {d : Decoded} {k m n : Nat}

/-! ## Elements one by one -/

/-- After the units still owed the elements are read as from a start. -/
theorem elementsFrom_eq_elements_drop (owed : Nat) (s : List α) :
    R.elementsFrom owed s = R.elements (s.drop owed) := by
  induction s generalizing owed with
  | nil =>
    rw [List.drop_nil]
    rfl
  | cons unit rest ih =>
    cases owed with
    | zero => rfl
    | succ owed => exact ih owed

/-- The first element, and those of the rest after it. -/
theorem elements_eq_cons (hd : R.decodeAt? s 0 = some d) :
    R.elements s = d :: R.elements (s.drop d.width) := by
  obtain ⟨unit, rest, hs, rfl⟩ := decodeAt?_eq_some_iff.mp hd
  rw [List.drop_zero] at hs
  rw [hs, Decoded.width, List.drop_succ_cons, ← elementsFrom_eq_elements_drop]
  rfl

/-- A sequence with units has elements. -/
theorem length_pos (h : 0 < s.length) : 0 < R.length s := by
  obtain ⟨d, hd⟩ := exists_decodeAt?_of_lt (R := R) h
  rw [length, elements_eq_cons hd]
  exact Nat.succ_pos _

/-- An element and the rest after it. -/
theorem length_drop_eq_succ (hd : R.decodeAt? s m = some d) :
    R.length (s.drop m) = R.length (s.drop (m + d.width)) + 1 := by
  rw [← Nat.add_zero m, ← decodeAt?_drop] at hd
  rw [length, elements_eq_cons hd, List.length_cons, List.drop_drop, length]

/-! ## Cutting at a stop -/

section Synchronizing

variable [R.Synchronizing]

/-- A cut at a stop keeps the elements. -/
theorem Stops.elements_eq_append {s : List α} {n : Nat} (hn : R.Stops s n) :
    R.elements s = R.elements (s.take n) ++ R.elements (s.drop n) := by
  by_cases hzero : n = 0
  · rw [hzero, List.take_zero, List.drop_zero]
    rfl
  · have hpos : 0 < s.length := by
      have := hn.le_length
      omega
    obtain ⟨d, hd⟩ := exists_decodeAt?_of_lt (R := R) hpos
    have hfirst : R.Stops s d.width := Nat.zero_add d.width ▸ Stops.start.next hd
    have hdn : d.width ≤ n := by
      have := Stops.start.end_le hd hn (by omega)
      omega
    -- the first element lies in the part before the cut, and the rest is cut at a stop again
    have hrest : R.Stops (s.drop d.width) (n - d.width) := by
      rw [hfirst.drop_iff, Nat.add_sub_cancel' hdn]
      exact hn
    have hfront := decodeAt?_take (n := n) hd (by omega)
    rw [elements_eq_cons hd, elements_eq_cons hfront, hrest.elements_eq_append, List.drop_drop,
      Nat.add_sub_cancel' hdn, List.drop_take, List.cons_append]
termination_by s.length
decreasing_by
  rw [List.length_drop, Decoded.width]
  omega

/-- A cut at a stop keeps the number of elements. -/
theorem Stops.length_eq_add (hn : R.Stops s n) :
    R.length s = R.length (s.take n) + R.length (s.drop n) := by
  rw [length, hn.elements_eq_append, List.length_append, length, length]

/-- There are more elements before an offset than before a stop that comes earlier. -/
theorem Stops.length_take_lt (hm : R.Stops s m) (hmn : m < n) (hn : n ≤ s.length) :
    R.length (s.take m) < R.length (s.take n) := by
  have hcut := (hm.take (Nat.le_of_lt hmn)).length_eq_add
  rw [List.take_take, Nat.min_eq_left (Nat.le_of_lt hmn)] at hcut
  have hpos : 0 < R.length ((s.take n).drop m) := length_pos (by
    rw [List.length_drop, List.length_take]
    omega)
  omega

/-! ## Cutting inside an element -/

/-- A cut inside an element leaves more elements than there were. -/
theorem length_lt_add_of_inside (hm : R.Stops s m) (hd : R.decodeAt? s m = some d) (hmn : m < n)
    (hend : n < m + d.width) : R.length s < R.length (s.take n) + R.length (s.drop n) := by
  have hlast := end_le_length hd
  have hwhole : R.length s = R.length (s.take m) + (R.length (s.drop (m + d.width)) + 1) := by
    rw [hm.length_eq_add, length_drop_eq_succ hd]
  -- the first part has the elements before the one that is cut, and some of its beginning
  have hfront := hm.length_take_lt hmn (by omega)
  -- the second part has some of its end, and the elements after it
  have hback : R.length (s.drop (m + d.width)) < R.length (s.drop n) := by
    have hcut := (stops_drop_of_inside hd hmn (k := m + d.width - n) (by omega)).length_eq_add
    rw [List.drop_drop, Nat.add_sub_cancel' (Nat.le_of_lt hend)] at hcut
    have hpos : 0 < R.length ((s.drop n).take (m + d.width - n)) := length_pos (by
      rw [List.length_take, List.length_drop]
      omega)
    omega
  omega

/-- Where the number of elements is kept there is a stop. -/
theorem stops_of_length_eq_add (hn : n ≤ s.length)
    (h : R.length s = R.length (s.take n) + R.length (s.drop n)) : R.Stops s n := by
  rcases stops_or_inside (R := R) hn with hstop | ⟨m, d, hm, hd, hmn, hend⟩
  · exact hstop
  · have := length_lt_add_of_inside hm hd hmn hend
    omega

/-! ## Splitting -/

/-- A split succeeds at the stops and leaves what lies before and after them. -/
theorem splitAt?_eq_some_iff {front back : List α} :
    R.splitAt? s n = some (front, back) ↔
      R.Stops s n ∧ front = s.take n ∧ back = s.drop n := by
  rw [← isBoundary_iff_stops, splitAt?]
  split
  · rename_i h
    rw [Option.some.injEq, Prod.mk.injEq, eq_comm, eq_comm (a := s.drop n)]
    exact ⟨fun hparts => ⟨h, hparts⟩, fun hparts => hparts.2⟩
  · rename_i h
    constructor
    · intro hnone
      cases hnone
    · intro hparts
      exact absurd hparts.1 h

/-- A split leaves what lies before and after a stop. -/
theorem exists_splitAt?_eq_some_iff {matched : Option (List α)} {rest : List α} :
    (∃ front, matched = some front ∧ R.splitAt? s n = some (front, rest)) ↔
      R.Stops s n ∧ matched = some (s.take n) ∧ rest = s.drop n := by
  constructor
  · rintro ⟨front, rfl, h⟩
    obtain ⟨hstop, rfl, rfl⟩ := splitAt?_eq_some_iff.mp h
    exact ⟨hstop, rfl, rfl⟩
  · rintro ⟨hstop, rfl, rfl⟩
    exact ⟨_, rfl, splitAt?_eq_some_iff.mpr ⟨hstop, rfl, rfl⟩⟩

theorem splitAt?_isSome_iff_stops : (R.splitAt? s n).isSome ↔ R.Stops s n := by
  rw [Option.isSome_iff_exists]
  constructor
  · rintro ⟨⟨front, back⟩, h⟩
    exact (splitAt?_eq_some_iff.mp h).1
  · intro h
    exact ⟨(s.take n, s.drop n), splitAt?_eq_some_iff.mpr ⟨h, rfl, rfl⟩⟩

/-- A split succeeds exactly where the two parts have the elements of the whole. -/
theorem splitAt?_isSome_iff_elements (hn : n ≤ s.length) :
    (R.splitAt? s n).isSome ↔ R.elements s = R.elements (s.take n) ++ R.elements (s.drop n) := by
  rw [splitAt?_isSome_iff_stops]
  refine ⟨Stops.elements_eq_append, fun h => stops_of_length_eq_add hn ?_⟩
  rw [length, h, List.length_append, length, length]

/-- A split succeeds exactly where the two parts have as many elements as the whole. -/
theorem splitAt?_isSome_iff_length (hn : n ≤ s.length) :
    (R.splitAt? s n).isSome ↔ R.length s = R.length (s.take n) + R.length (s.drop n) := by
  rw [splitAt?_isSome_iff_stops]
  exact ⟨Stops.length_eq_add, stops_of_length_eq_add hn⟩

/-- The boundaries after a stop are those of the rest. -/
theorem Stops.isBoundary_drop (hn : R.Stops s n) (k : Nat) :
    R.isBoundary (s.drop n) k = R.isBoundary s (n + k) := by
  rw [Bool.eq_iff_iff, isBoundary_iff_stops, isBoundary_iff_stops, hn.drop_iff]

/-- The boundaries up to a stop are those of the part before it. -/
theorem Stops.isBoundary_take (hn : R.Stops s n) (hk : k ≤ n) :
    R.isBoundary (s.take n) k = R.isBoundary s k := by
  rw [Bool.eq_iff_iff, isBoundary_iff_stops, isBoundary_iff_stops, hn.take_iff hk]

end Synchronizing

/-- Text can be split exactly where that keeps its elements, or only their number. The two parts
make up the text and have its boundaries. -/
theorem splitAt?_text_iff_keeps_elements (s : Bytes) (n : Nat) (hn : n ≤ s.length) :
    ((text.splitAt? s n).isSome ↔
      text.elements s = text.elements (s.take n) ++ text.elements (s.drop n)) ∧
    ((text.splitAt? s n).isSome ↔
      text.length s = text.length (s.take n) + text.length (s.drop n)) ∧
    ∀ front back, text.splitAt? s n = some (front, back) →
      front ++ back = s ∧ front.length = n ∧
      (∀ k, text.isBoundary s (n + k) = text.isBoundary back k) ∧
      ∀ k ≤ n, text.isBoundary s k = text.isBoundary front k := by
  refine ⟨splitAt?_isSome_iff_elements hn, splitAt?_isSome_iff_length hn, fun front back h => ?_⟩
  obtain ⟨hstop, rfl, rfl⟩ := splitAt?_eq_some_iff.mp h
  refine ⟨List.take_append_drop n s, List.length_take_of_le hn, fun k => ?_, fun k hk => ?_⟩
  · exact (hstop.isBoundary_drop k).symm
  · exact (hstop.isBoundary_take hk).symm

/-- Between a euro sign and a lead byte without its continuation bytes text is split, inside the
euro sign it is not. -/
theorem splitAt?_text_iff_keeps_elements_euro :
    let s : Bytes := [0xE2, 0x82, 0xAC, 0xE2, 0x82]
    (3 ≤ s.length ∧
      text.elements s = text.elements (s.take 3) ++ text.elements (s.drop 3) ∧
      text.splitAt? s 3 = some ([0xE2, 0x82, 0xAC], [0xE2, 0x82]) ∧
      text.isBoundary s (3 + 1) = text.isBoundary [0xE2, 0x82] 1) ∧
    (2 ≤ s.length ∧ text.length s ≠ text.length (s.take 2) + text.length (s.drop 2)) := by
  intro s
  have hsplit : text.splitAt? s 3 = some ([0xE2, 0x82, 0xAC], [0xE2, 0x82]) := by decide
  have hthree := splitAt?_text_iff_keeps_elements s 3 (by decide)
  have htwo := splitAt?_text_iff_keeps_elements s 2 (by decide)
  refine ⟨⟨by decide, hthree.1.mp (hsplit ▸ rfl), hsplit, ?_⟩, by decide, fun h => ?_⟩
  · exact (hthree.2.2 _ _ hsplit).2.2.1 1
  · exact absurd (htwo.2.1.mpr h) (by decide)

end Reading
end PrefixMatching
