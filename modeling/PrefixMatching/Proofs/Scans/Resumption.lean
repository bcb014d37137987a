import PrefixMatching.Proofs.Counts

/-!
# Scans that are interrupted

A scan can stop at any limit and be taken up again on what it left. Elements are read off the units
that are left, so the second scan reads the elements that the first one would have gone on to read,
and the two of them come to one scan up to the sum of their limits (`resumes_scanFrom`). This holds
of every reading; no element has to be read again, for a scan ends where an element ends.

A limit that the sequence is too short for makes no difference (`scanFrom_eq_of_length_le`). Lengths
are 64-bit numbers, and so the largest limit is never reached.
-/

namespace PrefixMatching

/-- The scan `second` of what `first` left comes, together with it, to the scan `whole`. -/
structure Scan.Resumes {α : Type} (first second whole : Scan α) : Prop where
  taken : first.taken ++ second.taken = whole.taken
  count : first.count + second.count = whole.count
  rest : second.rest = whole.rest

namespace Reading

variable {α : Type} {R : Reading α} {p : Int → Bool} {s : List α} {a b n limit limit' : Nat}

/-! ## Scanning further -/

/-- Scanning goes on where a scan was interrupted, also with units still owed. -/
theorem resumes_scanFrom (p : Int → Bool) (owed a b : Nat) (s : List α) :
    (R.scanFrom p owed a s).Resumes (R.scan p b (R.scanFrom p owed a s).rest)
      (R.scanFrom p owed (a + b) s) := by
  induction s generalizing owed a with
  | nil => constructor <;> simp [scanFrom, scan]
  | cons unit rest ih =>
    cases owed with
    | succ owed =>
      have hlater := ih owed a
      exact ⟨congrArg (unit :: ·) hlater.taken, hlater.count, hlater.rest⟩
    | zero =>
      cases a with
      | zero => constructor <;> simp [scanFrom, scan]
      | succ a =>
        rw [Nat.succ_add]
        by_cases hp : p (R.decode unit rest).element = true
        · have hlater := ih (R.decode unit rest).extra a
          have hcount := hlater.count
          simp only [scanFrom, if_pos hp]
          exact ⟨congrArg (unit :: ·) hlater.taken, by dsimp only; omega, hlater.rest⟩
        · -- the element that ended the first scan ends the second one at once
          cases b with
          | zero => constructor <;> simp [scanFrom, scan, hp]
          | succ b => constructor <;> simp [scanFrom, scan, hp]

theorem resumes_scan (p : Int → Bool) (a b : Nat) (s : List α) :
    (R.scan p a s).Resumes (R.scan p b (R.scan p a s).rest) (R.scan p (a + b) s) :=
  resumes_scanFrom p 0 a b s

/-- A scan does not notice limits that the sequence is too short for. -/
theorem scanFrom_eq_of_length_le (p : Int → Bool) (owed : Nat) (h : s.length ≤ limit)
    (h' : s.length ≤ limit') : R.scanFrom p owed limit s = R.scanFrom p owed limit' s := by
  induction s generalizing owed limit limit' with
  | nil => simp [scanFrom]
  | cons unit rest ih =>
    rw [List.length_cons] at h h'
    cases owed with
    | succ owed =>
      have hlater := ih owed (show rest.length ≤ limit by omega)
        (show rest.length ≤ limit' by omega)
      simp [scanFrom, hlater]
    | zero =>
      obtain ⟨l, rfl⟩ : ∃ l, limit = l + 1 := ⟨limit - 1, by omega⟩
      obtain ⟨l', rfl⟩ : ∃ l', limit' = l' + 1 := ⟨limit' - 1, by omega⟩
      have hlater := ih (R.decode unit rest).extra (show rest.length ≤ l by omega)
        (show rest.length ≤ l' by omega)
      simp [scanFrom, hlater]

/-- A scan accepts no more elements than its limit lets. -/
theorem count_scan_le (p : Int → Bool) (limit : Nat) (s : List α) :
    (R.scan p limit s).count ≤ limit := by
  rw [count_scan_eq, accepted, List.length_take]
  exact Nat.min_le_left _ _

/-- Scanning further, without a limit, comes to the scan without a limit. -/
theorem resumes_scan_largest (hs : s.length < UInt64.size) (p : Int → Bool) (a : Nat) :
    (R.scan p a s).Resumes (R.scan p Count.largest (R.scan p a s).rest)
      (R.scan p Count.largest s) := by
  have hsize : UInt64.size = Count.largest + 1 := rfl
  have hwhole : R.scan p (a + Count.largest) s = R.scan p Count.largest s :=
    scanFrom_eq_of_length_le p 0 (by omega) (by omega)
  rw [← hwhole]
  exact resumes_scan p a Count.largest s

/-! ## Matching further -/

/-- An exact number of elements is taken where a scan up to that number finds so many. -/
theorem outcome_takeExactly_natCast (hn : n < UInt64.size) :
    (R.takeExactly n p s).outcome =
      if (R.scan p n s).count < n then .failed
      else .ok (some (R.scan p n s).taken) (R.scan p n s).rest := by
  rw [takeExactly, outcome_takeBetween_natCast hn hn, if_neg (lt_irrefl n), Scan.trialOf]
  split <;> rfl

/-- At most a number of elements is what a scan up to that number finds. -/
theorem outcome_takeAtMost_natCast (hn : n < UInt64.size) :
    (R.takeAtMost n p s).outcome = .ok (some (R.scan p n s).taken) (R.scan p n s).rest := by
  have hcount : (0 : Int) ≤ n ∧ (n : Int) < UInt64.size := by omega
  rw [takeAtMost, Count.ofInt?_eq, if_pos hcount]
  rfl

/-- To match `a` elements and then `b` is to match `a + b` elements: both fail, or both leave the
same rest. -/
theorem outcome_takeExactly_add (hfits : a + b < UInt64.size) :
    let first := (R.takeExactly a p s).outcome
    let second := (first.onRest (R.takeExactly b p)).outcome
    let whole := (R.takeExactly (a + b : Nat) p s).outcome
    (second = .failed ∧ whole = .failed) ∨
      ∃ front middle back rest, first = .ok (some front) middle ∧
        second = .ok (some back) rest ∧ whole = .ok (some (front ++ back)) rest := by
  intro first second whole
  obtain ⟨htaken, hcount, hrest⟩ := resumes_scan (R := R) p a b s
  have hfirst : first = _ := outcome_takeExactly_natCast (show a < UInt64.size by omega)
  have hwhole : whole = _ := outcome_takeExactly_natCast hfits
  have hlimit := count_scan_le (R := R) p a s
  have hlimit' := count_scan_le (R := R) p b (R.scan p a s).rest
  by_cases hfew : (R.scan p a s).count < a
  · -- the second scan cannot make up for what the first one is short of
    rw [if_pos hfew] at hfirst
    rw [if_pos (by omega)] at hwhole
    refine .inl ⟨?_, hwhole⟩
    show (first.onRest (R.takeExactly b p)).outcome = .failed
    rw [hfirst]
    rfl
  · rw [if_neg hfew] at hfirst
    have hsecond : second = (R.takeExactly b p (R.scan p a s).rest).outcome := by
      show (first.onRest (R.takeExactly b p)).outcome = _
      rw [hfirst]
      rfl
    rw [outcome_takeExactly_natCast (show b < UInt64.size by omega)] at hsecond
    by_cases hfew' : (R.scan p b (R.scan p a s).rest).count < b
    · rw [if_pos hfew'] at hsecond
      rw [if_pos (by omega)] at hwhole
      exact .inl ⟨hsecond, hwhole⟩
    · rw [if_neg hfew'] at hsecond
      rw [if_neg (by omega), ← htaken, ← hrest] at hwhole
      exact .inr ⟨_, _, _, _, hfirst, hsecond, hwhole⟩

/-- Scans can be interrupted and taken up again, whatever the reading, the predicate and the
sequence are.

* To match `a` elements and then `b` elements is to match `a + b` elements at once. Both fail, or
  both leave the same rest, and the parts matched one after the other are the part matched at once.
* To match up to `a` elements and then all others is to match all elements at once.
* After all elements have been matched nothing more is matched, and the rest stays.

Counts are 64-bit numbers, and where all elements are matched so is the length of the sequence. -/
theorem scans_can_be_interrupted (R : Reading α) (p : Int → Bool) (s : List α) :
    (∀ a b : Nat, a + b < 2 ^ 64 →
      let first := (R.takeExactly a p s).outcome
      let second := (first.onRest (R.takeExactly b p)).outcome
      let whole := (R.takeExactly (a + b : Nat) p s).outcome
      (second = .failed ∧ whole = .failed) ∨
        ∃ front middle back rest, first = .ok (some front) middle ∧
          second = .ok (some back) rest ∧ whole = .ok (some (front ++ back)) rest) ∧
    (s.length < 2 ^ 64 → ∀ a : Nat, a < 2 ^ 64 →
      let first := (R.takeAtMost a p s).outcome
      let second := (first.onRest (R.takeWhile p)).outcome
      ∃ front middle back rest, first = .ok (some front) middle ∧
        second = .ok (some back) rest ∧
        (R.takeWhile p s).outcome = .ok (some (front ++ back)) rest) ∧
    (s.length < 2 ^ 64 →
      let first := (R.takeWhile p s).outcome
      let second := (first.onRest (R.takeWhile p)).outcome
      ∃ taken rest, first = .ok (some taken) rest ∧ second = .ok (some []) rest) := by
  refine ⟨fun a b hfits => outcome_takeExactly_add hfits, fun hs a ha => ?_, fun hs => ?_⟩
  · intro first second
    obtain ⟨htaken, -, hrest⟩ := resumes_scan_largest (R := R) hs p a
    have hfirst : first = _ := outcome_takeAtMost_natCast ha
    have hsecond : second = .ok (some (R.scan p Count.largest (R.scan p a s).rest).taken)
        (R.scan p Count.largest (R.scan p a s).rest).rest := by
      show (first.onRest (R.takeWhile p)).outcome = _
      rw [hfirst]
      rfl
    refine ⟨_, _, _, _, hfirst, hsecond, ?_⟩
    rw [htaken, hrest]
    rfl
  · intro first second
    obtain ⟨htaken, -, hrest⟩ := resumes_scan_largest (R := R) hs p Count.largest
    -- the second scan adds nothing to what the first one took
    have hnothing : (R.scan p Count.largest (R.scan p Count.largest s).rest).taken = [] :=
      List.append_right_eq_self.mp htaken
    refine ⟨_, _, rfl, ?_⟩
    show Match.ok (some _) _ = _
    rw [hnothing, hrest]

/-- A euro sign and a truncated one before a digit: interrupted after the euro sign, a scan goes on
between the bytes of the truncated one, and what is left in the end does not begin with either. -/
theorem scans_can_be_interrupted_euro :
    let s : Bytes := [0xE2, 0x82, 0xAC, 0xE2, 0x82, 0x31]
    let p : Int → Bool := fun c => 0x80 ≤ c
    let euro := (text.takeExactly 1 p s).outcome
    let all := (text.takeWhile p s).outcome
    (1 + 1 < 2 ^ 64 ∧ euro = .ok (some [0xE2, 0x82, 0xAC]) [0xE2, 0x82, 0x31] ∧
      (euro.onRest (text.takeExactly 1 p)).outcome = .ok (some [0xE2]) [0x82, 0x31] ∧
      (text.takeExactly (1 + 1 : Nat) p s).outcome =
        .ok (some ([0xE2, 0x82, 0xAC] ++ [0xE2])) [0x82, 0x31]) ∧
    (s.length < 2 ^ 64 ∧ 1 < 2 ^ 64 ∧ ∃ front back, all = .ok (some (front ++ back)) [0x31]) ∧
    (all.onRest (text.takeWhile p)).outcome = .ok (some []) [0x31] := by
  intro s p euro all
  obtain ⟨hexact, hmost, hwhile⟩ := scans_can_be_interrupted text p s
  have heuro : euro = .ok (some [0xE2, 0x82, 0xAC]) [0xE2, 0x82, 0x31] := by decide
  have hnext : (euro.onRest (text.takeExactly 1 p)).outcome = .ok (some [0xE2]) [0x82, 0x31] := by
    decide
  have hall : all = .ok (some [0xE2, 0x82, 0xAC, 0xE2, 0x82]) [0x31] := by decide
  have hfits : s.length < 2 ^ 64 := by decide
  refine ⟨⟨by decide, heuro, hnext, ?_⟩, ⟨hfits, by decide, ?_⟩, ?_⟩
  · obtain ⟨hfailed, -⟩ | ⟨front, middle, back, rest, hfirst, hsecond, hwhole⟩ :=
      hexact 1 1 (by decide)
    · exact absurd (hnext.symm.trans hfailed) (by simp)
    · obtain ⟨⟨rfl⟩, -⟩ := Match.ok.inj (heuro.symm.trans hfirst)
      obtain ⟨⟨rfl⟩, rfl⟩ := Match.ok.inj (hnext.symm.trans hsecond)
      exact hwhole
  · obtain ⟨front, middle, back, rest, -, -, hwhole⟩ := hmost hfits 1 (by decide)
    obtain ⟨-, rfl⟩ := Match.ok.inj (hall.symm.trans hwhole)
    exact ⟨front, back, hwhole⟩
  · obtain ⟨taken, rest, hfirst, hsecond⟩ := hwhile hfits
    obtain ⟨-, rfl⟩ := Match.ok.inj (hall.symm.trans hfirst)
    exact hsecond

end Reading
end PrefixMatching
