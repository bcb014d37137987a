import Mathlib.Data.List.DropRight
import PrefixMatching.Proofs.Counts
import PrefixMatching.Proofs.Literals
import PrefixMatching.Proofs.Utf8.Ascii

/-!
# Runs of bytes

What the matchers of the scanners do, byte by byte. A predicate with one answer past ASCII takes the
bytes that `List.takeWhile` takes (`outcome_takeAtLeast_one`, `outcome_text_takeExactly`), and an
ASCII character as a literal is its byte (`literal_byte_cons`), whatever malformed bytes follow.
-/

namespace PrefixMatching

/-! ## Where a run ends -/

section Ends

variable {α : Type} {q : α → Bool} {s tail : List α}

/-- A run ends where a unit stands that does not belong to it. -/
theorem takeWhile_append_of_head (htail : ∀ unit ∈ tail.head?, q unit = false) :
    (s ++ tail).takeWhile q = s.takeWhile q := by
  induction s with
  | nil =>
    cases tail with
    | nil => rfl
    | cons unit tail => simp [htail unit rfl]
  | cons unit s ih =>
    rw [List.cons_append, List.takeWhile_cons, List.takeWhile_cons, ih]

theorem dropWhile_append_of_head (htail : ∀ unit ∈ tail.head?, q unit = false) :
    (s ++ tail).dropWhile q = s.dropWhile q ++ tail := by
  have hparts := List.takeWhile_append_dropWhile (p := q) (l := s ++ tail)
  rw [takeWhile_append_of_head htail] at hparts
  have hfront := List.takeWhile_append_dropWhile (p := q) (l := s)
  refine List.append_cancel_left (hparts.trans ?_)
  rw [← List.append_assoc, hfront]

/-- Units at the end that are dropped do not matter. -/
theorem rdropWhile_append_of_pos (htail : ∀ unit ∈ tail, q unit = true) :
    (s ++ tail).rdropWhile q = s.rdropWhile q := by
  have hreverse : ∀ unit ∈ tail.reverse, q unit = true := fun unit hunit =>
    htail unit (List.mem_reverse.mp hunit)
  rw [List.rdropWhile, List.reverse_append, List.dropWhile_append_of_pos hreverse, List.rdropWhile]

/-- What a run leaves begins with a unit that does not belong to it. -/
theorem eq_false_of_mem_head?_dropWhile (q : α → Bool) (s : List α) :
    ∀ unit ∈ (s.dropWhile q).head?, q unit = false := by
  intro unit hunit
  have hhead := List.head?_dropWhile_not q s
  rw [Option.mem_def.mp hunit] at hhead
  simpa using hhead

/-- What is left without the units dropped at the end does not end with one of them. -/
theorem eq_false_of_mem_getLast?_rdropWhile (q : α → Bool) (s : List α) :
    ∀ unit ∈ (s.rdropWhile q).getLast?, q unit = false := by
  intro unit hunit
  rw [List.rdropWhile, List.getLast?_reverse] at hunit
  exact eq_false_of_mem_head?_dropWhile q s.reverse unit hunit

/-- What is left behind a run is short enough if the whole is. -/
theorem length_dropWhile_lt (hs : s.length < UInt64.size) :
    (s.dropWhile q).length < UInt64.size :=
  Nat.lt_of_le_of_lt (List.dropWhile_sublist q).length_le hs

end Ends

namespace Reading

variable {α : Type} {R : Reading α} {p : Int → Bool} {q : α → Bool} {s : List α}

/-! ## At least one -/

/-- A run of at least one element is a run of units that is not empty. -/
theorem outcome_takeAtLeast_one (h : R.DecidesByUnit p q) (hs : s.length < UInt64.size) :
    (R.takeAtLeast 1 p s).outcome =
      if s.takeWhile q = [] then .failed else .ok (some (s.takeWhile q)) (s.dropWhile q) := by
  have hone : (R.takeAtLeast 1 p s).outcome =
      ((R.scan p Count.largest s).trialOf 1).outcome :=
    outcome_takeAtLeast_natCast (show 1 < UInt64.size by decide)
  have hwhole : (R.scan p Count.largest s).trial.outcome =
      .ok (some (s.takeWhile q)) (s.dropWhile q) := outcome_takeWhile_of_length_lt h hs
  have htaken : (R.scan p Count.largest s).taken = s.takeWhile q :=
    taken_scan_of_length_le h (Nat.le_sub_one_of_lt hs)
  have hcount : (R.scan p Count.largest s).count < 1 ↔ s.takeWhile q = [] := by
    rw [Nat.lt_one_iff, count_scan_eq_zero_iff, htaken]
  rw [hone, Scan.trialOf]
  by_cases hempty : s.takeWhile q = []
  · rw [if_pos hempty, if_pos (hcount.mpr hempty)]
  · rw [if_neg hempty, if_neg (mt hcount.mp hempty), hwhole]

/-! ## A number of units -/

/-- Unit by unit every unit is an element. -/
theorem elements_units (value : α → Int) (s : List α) :
    (units value).elements s = s.map fun unit => ⟨value unit, 0⟩ := by
  induction s with
  | nil => rfl
  | cons unit s ih =>
    rw [List.map_cons, ← ih]
    rfl

/-- Elements of one unit each occupy as many units as they are. -/
theorem occupied_map_units (value : α → Int) (run : List α) :
    occupied (run.map fun unit => ⟨value unit, 0⟩) = run.length := by
  induction run with
  | nil => rfl
  | cons unit run ih =>
    rw [List.map_cons, occupied_cons, ih, List.length_cons]
    dsimp only
    omega

/-- Unit by unit an exact number of elements is that number of units. -/
theorem outcome_units_takeExactly (value : α → Int) {n : Nat} (hn : n < UInt64.size) (s : List α) :
    ((units value).takeExactly n p s).outcome =
      if n ≤ (s.takeWhile fun unit => p (value unit)).length then .ok (some (s.take n)) (s.drop n)
      else .failed := by
  have haccepted : accepted p n ((units value).elements s) =
      ((s.takeWhile fun unit => p (value unit)).take n).map fun unit => ⟨value unit, 0⟩ := by
    rw [elements_units, accepted, List.takeWhile_map, List.map_take]
    rfl
  rw [takeExactly, outcome_takeBetween_natCast hn hn, if_neg (by omega), outcome_trialOf_scan,
    haccepted, occupied_map_units, List.length_map, List.length_take]
  by_cases henough : n ≤ (s.takeWhile fun unit => p (value unit)).length
  · have hmin : min n (s.takeWhile fun unit => p (value unit)).length = n := by omega
    rw [hmin, if_pos henough, if_neg (by omega)]
  · rw [if_neg henough, if_pos (by omega)]

/-- A predicate that accepts ASCII only takes an exact number of bytes. -/
theorem outcome_text_takeExactly (hp : Element.IsUniform p false) {n : Nat} (hn : n < UInt64.size)
    (s : Bytes) :
    (text.takeExactly n p s).outcome =
      if n ≤ (s.takeWhile fun b => p b.toNat).length then .ok (some (s.take n)) (s.drop n)
      else .failed := by
  have hscan := fun limit => sameExtent_scan hp.decidesByUnit
    (decidesByUnit_units (fun b : UInt8 => (b.toNat : Int)) p)
    (fun _ _ h => hp.extra_eq_zero h) (fun _ _ _ => rfl) limit s
  rw [← outcome_units_takeExactly (fun b : UInt8 => (b.toNat : Int)) hn s]
  exact (sameExtent_takeBetween hscan n n).outcome

/-! ## One byte as a literal -/

variable {b c : UInt8} {rest : Bytes} {extent : Extent}

/-- An ASCII character ends at a stop, whatever follows. -/
theorem stops_byte (hb : b.toNat < 0x80) (rest : Bytes) : text.Stops ([b] ++ rest) [b].length := by
  have hread : text.decodeAt? ([b] ++ rest) 0 = some ⟨b.toNat, 0⟩ :=
    decodeAt?_eq_some_iff.mpr ⟨b, rest, rfl, Utf8.decode_of_lt hb rest⟩
  have hnext := Stops.start.next hread
  exact hnext

/-- An ASCII character is matched as a literal where its byte stands. -/
theorem literal_byte_cons (hb : b.toNat < 0x80) :
    text.literal [b] extent (b :: rest) = .ok (some [b]) rest := by
  have hlength : min (b :: rest).length [b].length = 1 := by simp
  have hstop : text.Stops (b :: rest) 1 := stops_byte hb rest
  rw [literal_eq_ok_iff, hlength]
  exact ⟨fun _ => by simp, rfl, hstop, rfl, rfl⟩

/-- Where another byte stands it is not matched. -/
theorem literal_byte_of_ne (hc : c ≠ b) : text.literal [b] extent (c :: rest) = .failed := by
  cases hliteral : text.literal [b] extent (c :: rest) with
  | failed => rfl
  | ok matched after =>
    have hlength : min (c :: rest).length [b].length = 1 := by simp
    have hunits := (literal_eq_ok_iff.mp hliteral).2.1
    rw [hlength] at hunits
    exact absurd (List.cons.inj hunits).1 hc

/-- At the end of a text nothing is matched where a whole byte is asked for. -/
theorem literal_byte_nil : text.literal [b] .whole [] = .failed := rfl

end Reading
end PrefixMatching
