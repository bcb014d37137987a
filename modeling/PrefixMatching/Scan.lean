import PrefixMatching.Count
import PrefixMatching.Match
import PrefixMatching.Reading

/-!
# Matching elements by a predicate

`Reading.scan` takes elements off the front of a sequence as long as a predicate accepts them and
a limit is not reached. The matchers built on it bound how many elements there must and may be.
Each also reports the elements it put to the predicate, in order.

A sequence has at least as many units as elements, so one with fewer units than the elements
demanded is refused without a look at its elements.
-/

namespace PrefixMatching

/-- How far a scan came. -/
structure Scan (α : Type) where
  /-- The units of the accepted elements. -/
  taken : List α
  /-- How many elements were accepted. -/
  count : Nat
  /-- The units after them. -/
  rest : List α
  /-- The elements put to the predicate. -/
  asked : List Int
deriving DecidableEq, Repr

/-- The outcome of a matcher and the elements it put to its predicate. -/
structure Trial (α : Type) where
  outcome : Match (List α) (List α)
  asked : List Int
deriving DecidableEq, Repr

namespace Trial

variable {α : Type}

/-- The outcome of a matcher that asked nothing. -/
def unasked (outcome : Match (List α) (List α)) : Trial α := ⟨outcome, []⟩

instance : Failable (Trial α) := ⟨unasked .failed⟩

end Trial

namespace Scan

variable {α : Type}

/-- The match that a scan amounts to. -/
def trial (r : Scan α) : Trial α := ⟨.ok (some r.taken) r.rest, r.asked⟩

/-- The match that a scan amounts to if it accepted enough elements. -/
def trialOf (r : Scan α) (min : Nat) : Trial α :=
  if r.count < min then ⟨.failed, r.asked⟩ else r.trial

end Scan

namespace Reading

variable {α : Type}

/-- Scans a sequence whose first `owed` units belong to an element already accepted, for at most
`limit` more elements. -/
def scanFrom (R : Reading α) (p : Int → Bool) : (owed limit : Nat) → List α → Scan α
  | _, _, [] => ⟨[], 0, [], []⟩
  | owed + 1, limit, unit :: rest =>
    let later := scanFrom R p owed limit rest
    { later with taken := unit :: later.taken }
  | 0, 0, unit :: rest => ⟨[], 0, unit :: rest, []⟩
  | 0, limit + 1, unit :: rest =>
    let d := R.decode unit rest
    if p d.element then
      let later := scanFrom R p d.extra limit rest
      ⟨unit :: later.taken, later.count + 1, later.rest, d.element :: later.asked⟩
    else ⟨[], 0, unit :: rest, [d.element]⟩

/-- The longest run of elements at the start that satisfy `p`, of at most `limit` elements. -/
def scan (R : Reading α) (p : Int → Bool) (limit : Nat) (s : List α) : Scan α :=
  R.scanFrom p 0 limit s

/-- A scan loses no unit. -/
theorem taken_append_rest_scanFrom (R : Reading α) (p : Int → Bool) (owed limit : Nat)
    (s : List α) :
    (R.scanFrom p owed limit s).taken ++ (R.scanFrom p owed limit s).rest = s := by
  induction s generalizing owed limit with
  | nil => simp [scanFrom]
  | cons unit rest ih =>
    cases owed with
    | succ owed => simp [scanFrom, ih]
    | zero =>
      cases limit with
      | zero => simp [scanFrom]
      | succ limit =>
        simp only [scanFrom]
        split <;> simp [ih]

/-- Every accepted element has a unit. -/
theorem count_scanFrom_le (R : Reading α) (p : Int → Bool) (owed limit : Nat) (s : List α) :
    (R.scanFrom p owed limit s).count ≤ (R.scanFrom p owed limit s).taken.length := by
  induction s generalizing owed limit with
  | nil => simp [scanFrom]
  | cons unit rest ih =>
    cases owed with
    | succ owed =>
      simp only [scanFrom, List.length_cons]
      exact Nat.le_succ_of_le (ih owed limit)
    | zero =>
      cases limit with
      | zero => simp [scanFrom]
      | succ limit =>
        simp only [scanFrom]
        split
        · exact Nat.succ_le_succ (ih _ limit)
        · exact Nat.zero_le _

/-- What a scan takes and what it leaves have as many units as the sequence. -/
theorem length_scan (R : Reading α) (p : Int → Bool) (limit : Nat) (s : List α) :
    (R.scan p limit s).taken.length + (R.scan p limit s).rest.length = s.length := by
  have h := congrArg List.length (R.taken_append_rest_scanFrom p 0 limit s)
  simpa [scan] using h

/-! ## Matchers -/

/-- Takes all elements that satisfy `p`. Never fails. -/
def takeWhile (R : Reading α) (p : Int → Bool) (s : List α) : Trial α :=
  (R.scan p Count.largest s).trial

/-- Takes all elements that satisfy `p`, and fails if they are fewer than `min`. -/
def takeAtLeast (R : Reading α) (min : Int) (p : Int → Bool) (s : List α) : Trial α :=
  match Count.ofInt? min with
  | none => Failable.failed
  | some min =>
    if s.length < min then Failable.failed else (R.scan p Count.largest s).trialOf min

/-- Takes elements that satisfy `p`, but no more than `max`. -/
def takeAtMost (R : Reading α) (max : Int) (p : Int → Bool) (s : List α) : Trial α :=
  match Count.ofInt? max with
  | none => Failable.failed
  | some max => (R.scan p max s).trial

/-- Takes elements that satisfy `p`, but no more than `max`, and fails if they are fewer than
`min`. -/
def takeBetween (R : Reading α) (min max : Int) (p : Int → Bool) (s : List α) : Trial α :=
  match Count.ofInt? min, Count.ofInt? max with
  | some min, some max =>
    if max < min || s.length < min then Failable.failed else (R.scan p max s).trialOf min
  | _, _ => Failable.failed

/-- Takes exactly `n` elements that satisfy `p`. -/
def takeExactly (R : Reading α) (n : Int) (p : Int → Bool) (s : List α) : Trial α :=
  R.takeBetween n n p s

/-! ## Progress -/

/-- The rest after a run of elements is no longer than the sequence. -/
theorem length_rest_takeWhile_le {R : Reading α} {p : Int → Bool} {s rest : List α}
    {matched : Option (List α)} (h : (R.takeWhile p s).outcome = .ok matched rest) :
    rest.length ≤ s.length := by
  have hlen := R.length_scan p Count.largest s
  simp only [takeWhile, Scan.trial, Match.ok.injEq] at h
  rw [← h.2]
  omega

/-- A run of at least one element leaves a shorter rest. -/
theorem length_rest_takeAtLeast_lt {R : Reading α} {p : Int → Bool} {s rest : List α}
    {matched : Option (List α)} (h : (R.takeAtLeast 1 p s).outcome = .ok matched rest) :
    rest.length < s.length := by
  have hlen := R.length_scan p Count.largest s
  have hcount : (R.scan p Count.largest s).count ≤ (R.scan p Count.largest s).taken.length :=
    R.count_scanFrom_le p 0 Count.largest s
  have hone : Count.ofInt? 1 = some 1 := by decide
  simp only [takeAtLeast, hone] at h
  split at h
  · simp [Failable.failed, Trial.unasked] at h
  · unfold Scan.trialOf at h
    split at h
    · simp at h
    · simp only [Scan.trial, Match.ok.injEq] at h
      rw [← h.2]
      omega

end Reading
end PrefixMatching
