import PrefixMatching.Proofs.Scans
import PrefixMatching.Proofs.Utf8.Boundaries

/-!
# Where literals end

A literal matches where its units stand, or as many of them as there are, and a stop ends them
(`literal_eq_ok_iff`). Unit by unit every offset is a stop, so a literal of text matches exactly
where it matches as bytes and its end is a boundary (`literal_eq_ok_iff_units`). A literal that is
well-formed text ends at a boundary by itself (`Utf8.stops_of_isWellFormed`) and needs no test.

The stops are also where scans end. So the beginning of a sequence is a literal of it exactly where
the sequence can be split (`literal_take_eq_ok_iff`), and whatever a matcher takes can be matched
again as a literal (`literal_of_isSplit`).
-/

namespace PrefixMatching

/-- Matches are equal if they are the same when they have not failed. -/
theorem Match.eq_of_ok_iff {μ ρ : Type} {x y : Match μ ρ}
    (h : ∀ matched rest, x = .ok matched rest ↔ y = .ok matched rest) : x = y := by
  cases y with
  | ok matched rest => exact (h matched rest).mpr rfl
  | failed =>
    cases x with
    | failed => rfl
    | ok matched rest => exact ((h matched rest).mp rfl).symm

namespace Utf8

/-- Bytes that are the standard encoding of characters. -/
def IsWellFormed (s : Bytes) : Prop := ∃ chars : List Char, s = chars.flatMap String.utf8EncodeChar

/-- A character at the start of text is read as one element. -/
theorem decodeAt?_utf8EncodeChar_append (c : Char) (rest : Bytes) :
    Reading.text.decodeAt? (String.utf8EncodeChar c ++ rest) 0 =
      some ⟨c.toNat, (String.utf8EncodeChar c).length - 1⟩ := by
  obtain ⟨lead, tail, hbytes⟩ := List.exists_cons_of_ne_nil
    (List.append_ne_nil_of_left_ne_nil (String.utf8EncodeChar_ne_nil (c := c)) rest)
  rw [Reading.decodeAt?_eq_some_iff]
  refine ⟨lead, tail, hbytes, decode_of_utf8EncodeChar_isPrefix ?_⟩
  rw [← hbytes]
  exact List.prefix_append _ _

/-- A character at the start of text ends at a stop. -/
theorem stops_utf8EncodeChar_append (c : Char) (rest : Bytes) :
    Reading.text.Stops (String.utf8EncodeChar c ++ rest) (String.utf8EncodeChar c).length := by
  have hpos := List.length_pos_iff.mpr (String.utf8EncodeChar_ne_nil (c := c))
  have hnext := Reading.Stops.start.next (decodeAt?_utf8EncodeChar_append c rest)
  rw [Decoded.width, Nat.sub_add_cancel hpos, Nat.zero_add] at hnext
  exact hnext

/-- Well-formed text ends at a stop, whatever follows. -/
theorem stops_of_isWellFormed {pattern : Bytes} (h : IsWellFormed pattern) (rest : Bytes) :
    Reading.text.Stops (pattern ++ rest) pattern.length := by
  obtain ⟨chars, rfl⟩ := h
  induction chars with
  | nil => exact .start
  | cons c chars ih =>
    rw [List.flatMap_cons, List.append_assoc, List.length_append]
    -- the first character is read whole, and the others are read from its end
    refine (stops_utf8EncodeChar_append c _).add ?_
    rw [List.drop_left]
    exact ih

end Utf8

namespace Reading

variable {α : Type} {R : Reading α} {pattern s rest : List α} {extent : Extent}
  {matched : Option (List α)} {n : Nat}

/-- Unit by unit a sequence can be cut anywhere. -/
theorem stops_units_iff {value : α → Int} : (units value).Stops s n ↔ n ≤ s.length := by
  rw [← isBoundary_iff_stops]
  simp [isBoundary, units]

variable [DecidableEq α] [R.Synchronizing]

/-- A literal matches where as much of it stands as there can be, all of it if it has to, and ends
at a stop. -/
theorem literal_eq_ok_iff :
    R.literal pattern extent s = .ok matched rest ↔
      (extent = .whole → pattern.length ≤ s.length) ∧
      s.take (min s.length pattern.length) = pattern.take (min s.length pattern.length) ∧
      R.Stops s (min s.length pattern.length) ∧
      matched = some (s.take (min s.length pattern.length)) ∧
      rest = s.drop (min s.length pattern.length) := by
  constructor
  · intro h
    obtain ⟨hmatched, hrest⟩ := literal_eq_ok h
    have hwhole : extent = .whole → pattern.length ≤ s.length := by
      rintro rfl
      exact length_le_of_literal_whole h
    unfold literal at h
    split at h
    · cases h
    · dsimp only at h
      split at h
      · rename_i hunits
        split at h
        · cases h
        · rename_i hsplit
          exact ⟨hwhole, hunits, (splitAt?_eq_some_iff.mp hsplit).1, hmatched, hrest⟩
      · cases h
  · rintro ⟨hwhole, hunits, hstop, rfl, rfl⟩
    have hlong : ¬ (extent = .whole ∧ s.length < pattern.length) := by
      rintro ⟨hextent, hlt⟩
      exact absurd (hwhole hextent) (by omega)
    rw [literal, if_neg hlong]
    dsimp only
    rw [if_pos hunits, splitAt?_eq_some_iff.mpr ⟨hstop, rfl, rfl⟩]

/-- A literal matches where it matches unit by unit and its match ends at a boundary. -/
theorem literal_eq_ok_iff_units (value : α → Int) :
    R.literal pattern extent s = .ok matched rest ↔
      ∃ front, matched = some front ∧ R.isBoundary s front.length = true ∧
        (units value).literal pattern extent s = .ok (some front) rest := by
  constructor
  · intro h
    obtain ⟨hwhole, hunits, hstop, rfl, rfl⟩ := literal_eq_ok_iff.mp h
    refine ⟨_, rfl, ?_, ?_⟩
    · rw [List.length_take_of_le hstop.le_length]
      exact isBoundary_iff_stops.mpr hstop
    · rw [literal_eq_ok_iff]
      exact ⟨hwhole, hunits, stops_units_iff.mpr hstop.le_length, rfl, rfl⟩
  · rintro ⟨front, rfl, hend, h⟩
    obtain ⟨hwhole, hunits, hunit, hfront, rfl⟩ := literal_eq_ok_iff.mp h
    rw [isBoundary_iff_stops, Option.some.inj hfront,
      List.length_take_of_le hunit.le_length] at hend
    exact literal_eq_ok_iff.mpr ⟨hwhole, hunits, hend, hfront, rfl⟩

/-- Where the units of a literal end at a stop, whatever follows them, its match needs no boundary
test. -/
theorem literal_eq_literal_units (value : α → Int)
    (hends : ∀ rest, R.Stops (pattern ++ rest) pattern.length) :
    R.literal pattern extent s = (units value).literal pattern extent s := by
  refine Match.eq_of_ok_iff fun matched rest => ?_
  rw [literal_eq_ok_iff, literal_eq_ok_iff]
  refine and_congr_right fun _ => and_congr_right fun hunits => and_congr_left fun _ => ?_
  refine ⟨fun h => stops_units_iff.mpr h.le_length, fun _ => ?_⟩
  rcases Nat.le_total s.length pattern.length with hlong | hshort
  · -- the literal is cut at the end of the sequence
    rw [Nat.min_eq_left hlong]
    exact stops_length s
  · rw [Nat.min_eq_right hshort, List.take_length] at hunits
    have hparts := List.take_append_drop pattern.length s
    rw [hunits] at hparts
    rw [Nat.min_eq_right hshort, ← hparts]
    exact hends _

/-- The beginning of a sequence, as a literal, splits it where it ends. -/
theorem literal_take_eq_ok_iff (hn : n ≤ s.length) :
    R.literal (s.take n) .whole s = .ok matched rest ↔
      R.Stops s n ∧ matched = some (s.take n) ∧ rest = s.drop n := by
  have hlength : (s.take n).length = n := List.length_take_of_le hn
  rw [literal_eq_ok_iff, hlength, Nat.min_eq_right hn, List.take_take, Nat.min_self]
  exact ⟨fun h => h.2.2, fun h => ⟨fun _ => hn, rfl, h⟩⟩

/-- What a matcher takes can be matched again as a literal. -/
theorem literal_of_isSplit {x : Match (List α) (List α)} (h : R.IsSplit s x)
    (hx : x = .ok matched rest) :
    ∃ front, matched = some front ∧ R.literal front .whole s = .ok (some front) rest := by
  rw [hx] at h
  rcases h with h | ⟨n, hn, h⟩
  · cases h
  · cases h
    exact ⟨_, rfl, (literal_take_eq_ok_iff hn.le_length).mpr ⟨hn, rfl, rfl⟩⟩

/-! ## Text -/

/-- Literals and scans cut text at the same points, and literals of text agree with literals of
bytes.

* To split text at an offset, to match what lies before the offset as a literal and to take that
  many elements are the same. The number of elements is that of the part which is taken; as a count
  it has 64 bits, and so has the length of a text.
* A literal of text matches where its bytes match and their end is a boundary, which goes without
  saying for a well-formed literal.
* What any matcher takes, matched as a literal, splits the text as the matcher did. -/
theorem literals_and_scans_cut_alike (value : UInt8 → Int) (s : Bytes) :
    (∀ n ≤ s.length, ∀ matched rest,
      (text.literal (s.take n) .whole s = .ok matched rest ↔
        ∃ front, matched = some front ∧ text.splitAt? s n = some (front, rest)) ∧
      (s.length < UInt64.size →
        ((∃ k : Int, (text.takeExactly k (fun _ => true) s).outcome = .ok matched rest ∧
            matched.map List.length = some n) ↔
          ∃ front, matched = some front ∧ text.splitAt? s n = some (front, rest))) ∧
      ∀ k : Int, (text.takeExactly k (fun _ => true) s).outcome = .ok matched rest →
        matched.map List.length = some n → k = text.length (s.take n)) ∧
    (∀ pattern extent matched rest,
      text.literal pattern extent s = .ok matched rest ↔
        ∃ front, matched = some front ∧ text.isBoundary s front.length = true ∧
          (units value).literal pattern extent s = .ok (some front) rest) ∧
    (∀ pattern extent, Utf8.IsWellFormed pattern →
      text.literal pattern extent s = (units value).literal pattern extent s) ∧
    ∀ (matcher : Matcher UInt8) (call : Option (Call UInt8)) (matched rest),
      (matcher.trial text call s).outcome = .ok matched rest →
        ∃ front, matched = some front ∧ text.literal front .whole s = .ok (some front) rest := by
  refine ⟨fun n hn matched rest => ⟨?_, fun hs => ?_, fun k hk hlength => ?_⟩,
    fun pattern extent matched rest => literal_eq_ok_iff_units value,
    fun pattern extent h => literal_eq_literal_units value (Utf8.stops_of_isWellFormed h),
    fun matcher call matched rest => literal_of_isSplit (isSplit_trial call matcher s)⟩
  · rw [literal_take_eq_ok_iff hn, exists_splitAt?_eq_some_iff]
  · rw [exists_splitAt?_eq_some_iff, exists_takeExactly_all_iff hs]
  · exact (takeExactly_all_eq_ok_length_iff.mp ⟨hk, hlength⟩).2.1

/-- A euro sign before a byte that is no character is cut off as a literal and as one element, its
first two bytes are neither. Where only these two are left, the euro sign is cut as a literal of
bytes is. -/
theorem literals_and_scans_cut_alike_euro :
    let euro : Bytes := [0xE2, 0x82, 0xAC]
    let s : Bytes := [0xE2, 0x82, 0xAC, 0xFF]
    let all : Int → Bool := fun _ => true
    (3 ≤ s.length ∧ s.length < UInt64.size ∧ text.splitAt? s 3 = some (euro, [0xFF]) ∧
      text.literal (s.take 3) .whole s = .ok (some euro) [0xFF] ∧
      (∃ k : Int, (text.takeExactly k all s).outcome = .ok (some euro) [0xFF] ∧
        k = text.length (s.take 3))) ∧
    (2 ≤ s.length ∧ text.splitAt? s 2 = none ∧
      ∀ matched rest, text.literal (s.take 2) .whole s ≠ .ok matched rest) ∧
    (Utf8.IsWellFormed euro ∧
      text.literal euro .cut [0xE2, 0x82] =
        (units fun b => b.toNat).literal euro .cut [0xE2, 0x82]) ∧
    (((Matcher.takeWhile fun c => c = 0x20AC).trial text none s).outcome = .ok (some euro) [0xFF] ∧
      ∃ front, some euro = some front ∧ text.literal front .whole s = .ok (some front) [0xFF]) := by
  intro euro s all
  obtain ⟨hcut, -, -, hagain⟩ := literals_and_scans_cut_alike (fun b => b.toNat) s
  have hsplit : text.splitAt? s 3 = some (euro, [0xFF]) := by decide
  have hinside : text.splitAt? s 2 = none := by decide
  have hwell : Utf8.IsWellFormed euro := ⟨['€'], by decide⟩
  have htaken : ((Matcher.takeWhile fun c => c = 0x20AC).trial text none s).outcome =
      .ok (some euro) [0xFF] := by decide
  obtain ⟨hliteral, hexists, hcount⟩ := hcut 3 (by decide) (some euro) [0xFF]
  obtain ⟨k, hk, hlength⟩ := (hexists (by decide)).mpr ⟨euro, rfl, hsplit⟩
  refine ⟨⟨by decide, by decide, hsplit, hliteral.mpr ⟨euro, rfl, hsplit⟩, k, hk,
    hcount k hk hlength⟩, ⟨by decide, hinside, fun matched rest h => ?_⟩, ⟨hwell, ?_⟩,
    htaken, hagain _ none _ _ htaken⟩
  · obtain ⟨front, -, hfront⟩ := (hcut 2 (by decide) matched rest).1.mp h
    rw [hinside] at hfront
    cases hfront
  · exact (literals_and_scans_cut_alike (fun b => b.toNat) [0xE2, 0x82]).2.2.1 euro .cut hwell

end Reading
end PrefixMatching
