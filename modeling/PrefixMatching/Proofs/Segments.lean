import PrefixMatching.Literal
import PrefixMatching.Program
import PrefixMatching.Proofs.Cuts
import PrefixMatching.Scan

/-!
# Segments of an input

Every matcher splits its sequence at a stop or fails (`isSplit_trial`). So what is matched on one
rest after another are segments of one input, each cut out between two stops. `Segments` lists such
parts in their order, `IsCut` adds the rest after them: the shape that all states of a program have.
-/

namespace PrefixMatching
namespace Reading

variable {α : Type} {R : Reading α} {s : List α}

/-! ## Matchers split at stops -/

/-- A match that failed, or split the sequence at a stop. -/
def IsSplit (R : Reading α) (s : List α) (x : Match (List α) (List α)) : Prop :=
  x = .failed ∨ ∃ n, R.Stops s n ∧ x = .ok (some (s.take n)) (s.drop n)

/-- A scan stops after the units still owed and whole elements. -/
theorem exists_stops_scanFrom (p : Int → Bool) (owed limit : Nat) (s : List α)
    (howed : owed ≤ s.length) :
    ∃ k, (R.scanFrom p owed limit s).taken.length = owed + k ∧ R.Stops (s.drop owed) k := by
  induction s generalizing owed limit with
  | nil =>
    obtain rfl : owed = 0 := Nat.le_zero.mp howed
    exact ⟨0, rfl, .start⟩
  | cons unit rest ih =>
    cases owed with
    | succ owed =>
      obtain ⟨k, hk, hstop⟩ := ih owed limit (Nat.le_of_succ_le_succ howed)
      refine ⟨k, ?_, hstop⟩
      rw [scanFrom, List.length_cons, hk]
      omega
    | zero =>
      cases limit with
      | zero => exact ⟨0, rfl, .start⟩
      | succ limit =>
        rw [scanFrom]
        dsimp only
        split
        · -- the accepted element ends at a stop, and the later ones are read from there
          obtain ⟨k, hk, hstop⟩ := ih _ limit (R.extra_le unit rest)
          have hfirst := Stops.start.next (show R.decodeAt? (unit :: rest) 0 = _ from rfl)
          rw [Nat.zero_add] at hfirst
          refine ⟨(R.decode unit rest).width + k, ?_, hfirst.add hstop⟩
          rw [List.length_cons, hk, Decoded.width]
          omega
        · exact ⟨0, rfl, .start⟩

/-- A scan splits its sequence at a stop. -/
theorem isSplit_trial_scan (p : Int → Bool) (limit : Nat) (s : List α) :
    R.IsSplit s (R.scan p limit s).trial.outcome := by
  obtain ⟨k, hk, hstop⟩ := exists_stops_scanFrom (R := R) p 0 limit s (Nat.zero_le _)
  have hparts : (R.scan p limit s).taken ++ (R.scan p limit s).rest = s :=
    R.taken_append_rest_scanFrom p 0 limit s
  rw [Nat.zero_add] at hk
  rw [List.drop_zero] at hstop
  have hinj := List.append_inj (hparts.trans (List.take_append_drop k s).symm)
    (by rw [List.length_take_of_le hstop.le_length]; exact hk)
  refine .inr ⟨k, hstop, ?_⟩
  show Match.ok (some (R.scan p limit s).taken) (R.scan p limit s).rest = _
  rw [hinj.1, hinj.2]

theorem isSplit_trialOf_scan (p : Int → Bool) (limit min : Nat) (s : List α) :
    R.IsSplit s ((R.scan p limit s).trialOf min).outcome := by
  unfold Scan.trialOf
  split
  · exact .inl rfl
  · exact isSplit_trial_scan p limit s

theorem isSplit_takeAtLeast (min : Int) (p : Int → Bool) (s : List α) :
    R.IsSplit s (R.takeAtLeast min p s).outcome := by
  unfold takeAtLeast
  split
  · exact .inl rfl
  · split
    · exact .inl rfl
    · exact isSplit_trialOf_scan p _ _ s

theorem isSplit_takeAtMost (max : Int) (p : Int → Bool) (s : List α) :
    R.IsSplit s (R.takeAtMost max p s).outcome := by
  unfold takeAtMost
  split
  · exact .inl rfl
  · exact isSplit_trial_scan p _ s

theorem isSplit_takeBetween (min max : Int) (p : Int → Bool) (s : List α) :
    R.IsSplit s (R.takeBetween min max p s).outcome := by
  unfold takeBetween
  split
  · split
    · exact .inl rfl
    · exact isSplit_trialOf_scan p _ _ s
  · exact .inl rfl

variable [DecidableEq α] [R.Synchronizing]

/-- A literal splits its sequence at a boundary, which is a stop. -/
theorem isSplit_literal (pattern : List α) (extent : Extent) (s : List α) :
    R.IsSplit s (R.literal pattern extent s) := by
  unfold literal
  split
  · exact .inl rfl
  · dsimp only
    split
    · split
      · exact .inl rfl
      · rename_i matched rest hsplit
        obtain ⟨hstop, rfl, rfl⟩ := splitAt?_eq_some_iff.mp hsplit
        exact .inr ⟨_, hstop, rfl⟩
    · exact .inl rfl

theorem isSplit_trial (call : Option (Call α)) (matcher : Matcher α) (s : List α) :
    R.IsSplit s (matcher.trial R call s).outcome := by
  unfold Matcher.trial
  split
  · split
    · exact .inl rfl
    · exact isSplit_literal _ _ s
  · exact isSplit_trial_scan _ _ s
  · split
    · exact .inl rfl
    · exact isSplit_takeAtLeast _ _ s
  · split
    · exact .inl rfl
    · exact isSplit_takeAtMost _ _ s
  · split
    · exact isSplit_takeBetween _ _ _ s
    · exact .inl rfl
  · split
    · exact .inl rfl
    · exact isSplit_takeBetween _ _ _ s

/-- The first of several literals splits the sequence as any of them does. -/
theorem isSplit_anyLiteralFrom (extent : Extent) (s : List α) (index : Nat)
    (patterns : List (List α)) :
    R.IsSplit s (R.anyLiteralFrom extent s index patterns).erase := by
  induction patterns generalizing index with
  | nil => exact .inl rfl
  | cons pattern patterns ih =>
    have hfirst := isSplit_literal (R := R) pattern extent s
    rw [anyLiteralFrom]
    split
    · exact ih (index + 1)
    · rename_i hok
      rw [hok] at hfirst
      rcases hfirst with h | ⟨n, hstop, h⟩
      · cases h
      · rw [h]
        exact .inr ⟨n, hstop, rfl⟩

/-! ## Segments in order -/

omit [DecidableEq α] [R.Synchronizing]

/-- Parts of an input between two offsets, one after the other, each cut out between two stops. -/
inductive Segments (R : Reading α) (input : List α) : (low high : Nat) → List (List α) → Prop where
  | nil {low high : Nat} : low ≤ high → Segments R input low high []
  | cons {low a b high : Nat} {parts : List (List α)} : low ≤ a → a ≤ b → R.Stops input a →
      R.Stops input b → Segments R input b high parts →
      Segments R input low high (input.extract a b :: parts)

/-- Parts cut from an input after an offset, in order, and the rest of the input after them. -/
def IsCut (R : Reading α) (input : List α) (low : Nat) (parts : List (List α)) (rest : List α) :
    Prop :=
  ∃ c, R.Stops input c ∧ rest = input.drop c ∧ R.Segments input low c parts

variable {input : List α} {parts parts' : List (List α)} {low mid high : Nat}

theorem Segments.le (h : R.Segments input low high parts) : low ≤ high := by
  induction h with
  | nil hle => exact hle
  | cons hlow hab _ _ _ ih => omega

theorem Segments.append (h : R.Segments input low mid parts)
    (h' : R.Segments input mid high parts') : R.Segments input low high (parts ++ parts') := by
  induction h with
  | nil hle =>
    cases h' with
    | nil hle' => exact .nil (Nat.le_trans hle hle')
    | cons hlow hab ha hb hparts => exact .cons (Nat.le_trans hle hlow) hab ha hb hparts
  | cons hlow hab ha hb _ ih => exact .cons hlow hab ha hb (ih h')

theorem Segments.mono_high (h : R.Segments input low mid parts) (hhigh : mid ≤ high) :
    R.Segments input low high parts := by
  have happend := h.append (.nil hhigh)
  rw [List.append_nil] at happend
  exact happend

/-- Nothing has been matched yet. -/
theorem isCut_nil {c : Nat} (hc : R.Stops input c) (hlow : low ≤ c) :
    R.IsCut input low [] (input.drop c) :=
  ⟨c, hc, rfl, .nil hlow⟩

/-- What is cut after a later offset is cut after an earlier one. -/
theorem IsCut.mono {rest : List α} (h : R.IsCut input mid parts rest) (hlow : low ≤ mid) :
    R.IsCut input low parts rest := by
  obtain ⟨c, hc, hrest, hparts⟩ := h
  exact ⟨c, hc, hrest, (Segments.nil hlow).append hparts⟩

/-- Parts before an offset are followed by what is cut after it. -/
theorem Segments.append_isCut {rest : List α} (h : R.Segments input low mid parts)
    (h' : R.IsCut input mid parts' rest) : R.IsCut input low (parts ++ parts') rest := by
  obtain ⟨c, hc, hrest, hparts⟩ := h'
  exact ⟨c, hc, hrest, h.append hparts⟩

/-- A match on the rest splits off the next segment. -/
theorem isCut_of_isSplit {c : Nat} {x : Match (List α) (List α)} {matched : Option (List α)}
    {rest : List α} (hc : R.Stops input c) (h : R.IsSplit (input.drop c) x)
    (hx : x = .ok matched rest) : R.IsCut input c matched.toList rest := by
  rw [hx] at h
  rcases h with h | ⟨n, hn, h⟩
  · cases h
  · cases h
    -- the matcher read the rest from its own start, and its stop is one of the whole input
    have hend := hc.add hn
    have htake : (input.drop c).take n = input.extract c (c + n) := by
      rw [List.extract_eq_take_drop, Nat.add_sub_cancel_left]
    rw [htake, List.drop_drop]
    exact ⟨c + n, hend, rfl,
      .cons (Nat.le_refl _) (Nat.le_add_right _ _) hc hend (.nil (Nat.le_refl _))⟩

end Reading
end PrefixMatching
