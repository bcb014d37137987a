import Mathlib.Data.List.Basic
import PrefixMatching.Bytes
import PrefixMatching.Literal
import PrefixMatching.Proofs.Choice
import PrefixMatching.Utf8

/-!
# The first branch that matches

A choice calls its branches one after the other until one matches, all with the same start
(`among_eq_firstOf`). The branches run in an arbitrary monad, so this says which of them are called,
with what and in which order; `run_among_recording` spells it out for branches that note their
calls.

Matching one of several literals is a loop of its own, and the same as a choice between literals
that are tagged with their places in the list (`onRest_anyLiteral_eq_among`).
-/

namespace PrefixMatching

/-- Numbers that are counted from `index` go on from the next one. -/
theorem mapIdx_add_cons {α β : Type} (f : Nat → α → β) (index : Nat) (a : α) (l : List α) :
    (a :: l).mapIdx (fun i => f (index + i)) =
      f index a :: l.mapIdx fun i => f (index + 1 + i) := by
  rw [List.mapIdx_cons]
  simp only [Nat.add_zero, Nat.add_comm, Nat.add_left_comm]

namespace Choice

variable {μ ν ρ : Type} {m : Type → Type} [Monad m] {start : Match μ ρ}

/-- Calls branches one after the other until one matches. -/
def firstOf (start : Match μ ρ) : List (Match μ ρ → m (Match ν ρ)) → m (Match ν ρ)
  | [] => pure .failed
  | branch :: branches => do
    let result ← branch start
    if result.isFailed then firstOf start branches else pure result

section Lawful

variable [LawfulMonad m]

/-- A failed start is offered to no branch. -/
theorem among_of_isFailed (hstart : start.isFailed = true)
    (branches : List (Match μ ρ → m (Match ν ρ))) : among start branches = pure .failed := by
  have hnone : branches.foldlM (fun c branch => c.offer branch) (between start) =
      (pure (between start) : m (Choice μ ν ρ)) := by
    induction branches with
    | nil => rfl
    | cons branch branches ih =>
      have hoffer : (between start).offer branch = (pure (between start) : m (Choice μ ν ρ)) := by
        rw [offer, if_pos]
        simp [between, hstart]
      rw [List.foldlM_cons, hoffer, pure_bind, ih]
  rw [among, hnone, pure_bind]
  rfl

/-- A choice calls its branches one after the other until one matches. -/
theorem among_eq_firstOf (hstart : start.isFailed = false)
    (branches : List (Match μ ρ → m (Match ν ρ))) :
    among start branches = firstOf start branches := by
  induction branches with
  | nil => exact pure_bind _ _
  | cons branch branches ih =>
    rw [among_cons_eq_bind hstart, firstOf, ih]

end Lawful

/-! ## Calls -/

/-- The branch with a number that notes its calls. -/
def recording (index : Nat) (branch : Match μ ρ → Match ν ρ) (start : Match μ ρ) :
    StateM (List (Nat × Match μ ρ)) (Match ν ρ) := do
  modify (· ++ [(index, start)])
  pure (branch start)

/-- The result of the first branch that matches. -/
def chosen (start : Match μ ρ) (branches : List (Match μ ρ → Match ν ρ)) : Match ν ρ :=
  ((branches.map (· start)).find? (!·.isFailed)).getD .failed

/-- The number of branches before the first that matches. -/
def failing (start : Match μ ρ) (branches : List (Match μ ρ → Match ν ρ)) : Nat :=
  (branches.map (· start)).findIdx (!·.isFailed)

theorem run_firstOf_recording (start : Match μ ρ) (branches : List (Match μ ρ → Match ν ρ))
    (index : Nat) (calls : List (Nat × Match μ ρ)) :
    (firstOf start (branches.mapIdx fun i => recording (index + i))).run calls =
      (chosen start branches, calls ++
        ((List.range' index branches.length).take (failing start branches + 1)).map
          (·, start)) := by
  induction branches generalizing index calls with
  | nil =>
    rw [List.mapIdx_nil, firstOf]
    exact congrArg (Prod.mk _) (List.append_nil calls).symm
  | cons branch branches ih =>
    rw [mapIdx_add_cons, firstOf]
    show (if (branch start).isFailed = true then
      firstOf start (branches.mapIdx fun i => recording (index + 1 + i)) else
        pure (branch start)).run (calls ++ [(index, start)]) = _
    rw [List.length_cons, List.range'_succ, List.take_succ_cons]
    by_cases hbranch : (branch start).isFailed = true
    · have hchosen : chosen start (branch :: branches) = chosen start branches := by
        simp [chosen, hbranch]
      have hfailing : failing start (branch :: branches) = failing start branches + 1 := by
        simp [failing, List.findIdx_cons, hbranch]
      rw [if_pos hbranch, ih, hchosen, hfailing, List.append_assoc]
      rfl
    · have hchosen : chosen start (branch :: branches) = branch start := by
        simp [chosen, hbranch]
      have hfailing : failing start (branch :: branches) = 0 := by
        simp [failing, List.findIdx_cons, hbranch]
      rw [if_neg hbranch, hchosen, hfailing, List.take_zero]
      rfl

/-- Of branches that note their calls, those up to the first one that matches are called. -/
theorem run_among_recording (hstart : start.isFailed = false)
    (branches : List (Match μ ρ → Match ν ρ)) :
    (among start (branches.mapIdx recording)).run [] =
      (chosen start branches,
        ((List.range branches.length).take (failing start branches + 1)).map (·, start)) := by
  have hrun := run_firstOf_recording start branches 0 []
  simp only [Nat.zero_add] at hrun
  rw [among_eq_firstOf hstart, List.range_eq_range', hrun, List.nil_append]

end Choice

/-! ## Literals -/

namespace Reading

variable {α μ : Type} [DecidableEq α] {R : Reading α} {patterns : List (List α)} {extent : Extent}
  {s rest : List α} {index : Nat}

/-- The branch that matches a literal on the rest of its start and tags it with a number. -/
def literalBranch (R : Reading α) (extent : Extent) (index : Nat) (pattern : List α)
    (start : Match μ (List α)) : Match (List α × Nat) (List α) :=
  (start.onRest (R.literal pattern extent)).tag index

theorem anyLiteralFrom_eq_firstOf (R : Reading α) (patterns : List (List α)) (extent : Extent)
    (matched : Option μ) (s : List α) (index : Nat) :
    R.anyLiteralFrom extent s index patterns = Choice.firstOf (m := Id) (.ok matched s)
      (patterns.mapIdx fun i => R.literalBranch extent (index + i)) := by
  induction patterns generalizing index with
  | nil => rfl
  | cons pattern patterns ih =>
    rw [mapIdx_add_cons, anyLiteralFrom, Choice.firstOf, ← ih]
    show _ = (if ((R.literal pattern extent s).tag index).isFailed then _ else
      (R.literal pattern extent s).tag index : Match (List α × Nat) (List α))
    cases R.literal pattern extent s with
    | failed => rfl
    | ok found rest => rfl

/-- Matching one of several literals is a choice between them, each tagged with its place. -/
theorem onRest_anyLiteral_eq_among (R : Reading α) (patterns : List (List α)) (extent : Extent)
    (x : Match μ (List α)) :
    x.onRest (R.anyLiteral patterns extent) =
      Choice.among (m := Id) x (patterns.mapIdx (R.literalBranch extent)) := by
  cases x with
  | failed => exact (Choice.among_of_isFailed (m := Id) rfl _).symm
  | ok matched s =>
    have hfirst := anyLiteralFrom_eq_firstOf R patterns extent matched s 0
    simp only [Nat.zero_add] at hfirst
    rw [Choice.among_eq_firstOf rfl]
    exact hfirst

/-- The first of several literals that matches is the one whose place is the least. -/
theorem anyLiteralFrom_eq_ok_iff {found : Option (List α × Nat)} :
    R.anyLiteralFrom extent s index patterns = .ok found rest ↔
      ∃ i pattern matched, patterns[i]? = some pattern ∧ found = some (matched, index + i) ∧
        R.literal pattern extent s = .ok (some matched) rest ∧
        ∀ j < i, ∀ other, patterns[j]? = some other → R.literal other extent s = .failed := by
  induction patterns generalizing index with
  | nil => simp [anyLiteralFrom]
  | cons pattern patterns ih =>
    rw [anyLiteralFrom]
    cases hliteral : R.literal pattern extent s with
    | failed =>
      dsimp only
      rw [ih]
      constructor
      · rintro ⟨i, other, matched, hother, hfound, hmatch, hleast⟩
        have hplace : index + 1 + i = index + (i + 1) := by omega
        refine ⟨i + 1, other, matched, hother, hplace ▸ hfound, hmatch, fun j hj => ?_⟩
        cases j with
        | zero =>
          rintro _ ⟨rfl⟩
          exact hliteral
        | succ j => exact hleast j (by omega)
      · rintro ⟨i, other, matched, hother, hfound, hmatch, hleast⟩
        cases i with
        | zero =>
          cases hother
          rw [hliteral] at hmatch
          cases hmatch
        | succ i =>
          have hplace : index + (i + 1) = index + 1 + i := by omega
          exact ⟨i, other, matched, hother, hplace ▸ hfound, hmatch, fun j hj =>
            hleast (j + 1) (by omega)⟩
    | ok part after =>
      obtain ⟨rfl, -⟩ := literal_eq_ok hliteral
      constructor
      · intro h
        obtain ⟨rfl, rfl⟩ := Match.ok.inj h
        exact ⟨0, pattern, _, rfl, rfl, hliteral, nofun⟩
      · rintro ⟨i, other, matched, hother, rfl, hmatch, hleast⟩
        cases i with
        | zero =>
          cases hother
          rw [hliteral] at hmatch
          cases hmatch
          rfl
        | succ i =>
          -- the first literal matches, so no later one is the first that does
          have hfails := hleast 0 (by omega) pattern rfl
          rw [hliteral] at hfails
          cases hfails

theorem anyLiteral_eq_ok_iff {found : Option (List α × Nat)} :
    R.anyLiteral patterns extent s = .ok found rest ↔
      ∃ i pattern matched, patterns[i]? = some pattern ∧ found = some (matched, i) ∧
        R.literal pattern extent s = .ok (some matched) rest ∧
        ∀ j < i, ∀ other, patterns[j]? = some other → R.literal other extent s = .failed := by
  rw [anyLiteral, anyLiteralFrom_eq_ok_iff]
  simp only [Nat.zero_add]

end Reading

/-- A choice is ordered, and matching one of several literals is a choice.

* A failed start is offered to no branch. Otherwise the branches are called one after the other
  until one matches, in whatever monad they run.
* Of branches that note their calls, exactly those up to the first one that matches are called, in
  order, each once and with the start as it is, and the choice is the result of that one.
* Matching one of several literals, on a sequence or on the rest of a match, is the choice between
  them where each is tagged with its place. So the tag is the least place of a literal that
  matches, and the match is that of this literal. -/
theorem choice_is_first_match {μ ν ρ α : Type} [DecidableEq α] {m : Type → Type} [Monad m]
    [LawfulMonad m] (start : Match μ ρ) :
    (∀ branches : List (Match μ ρ → m (Match ν ρ)),
      Choice.among start branches =
        if start.isFailed = true then pure .failed else Choice.firstOf start branches) ∧
    (∀ branches : List (Match μ ρ → Match ν ρ),
      (Choice.among start (branches.mapIdx Choice.recording)).run [] =
        if start.isFailed = true then (.failed, [])
        else (Choice.chosen start branches,
          ((List.range branches.length).take (Choice.failing start branches + 1)).map
            (·, start))) ∧
    (∀ (R : Reading α) (patterns : List (List α)) (extent : Extent),
      (∀ x : Match μ (List α), x.onRest (R.anyLiteral patterns extent) =
        Choice.among (m := Id) x (patterns.mapIdx (R.literalBranch extent))) ∧
      ∀ s, R.anyLiteral patterns extent s =
          Choice.among (m := Id) (.start s : Match (List α) (List α))
            (patterns.mapIdx (R.literalBranch extent)) ∧
        ∀ found rest, R.anyLiteral patterns extent s = .ok found rest ↔
          ∃ i pattern matched, patterns[i]? = some pattern ∧ found = some (matched, i) ∧
            R.literal pattern extent s = .ok (some matched) rest ∧
            ∀ j < i, ∀ other, patterns[j]? = some other →
              R.literal other extent s = .failed) := by
  refine ⟨fun branches => ?_, fun branches => ?_, fun R patterns extent => ⟨?_, fun s => ⟨?_, ?_⟩⟩⟩
  · by_cases hstart : start.isFailed = true
    · rw [if_pos hstart, Choice.among_of_isFailed hstart]
    · rw [if_neg hstart, Choice.among_eq_firstOf (Bool.not_eq_true _ ▸ hstart)]
  · by_cases hstart : start.isFailed = true
    · rw [if_pos hstart, Choice.among_of_isFailed hstart]
      rfl
    · rw [if_neg hstart, Choice.run_among_recording (Bool.not_eq_true _ ▸ hstart)]
  · exact R.onRest_anyLiteral_eq_among patterns extent
  · exact R.onRest_anyLiteral_eq_among patterns extent (.start s)
  · exact fun found rest => Reading.anyLiteral_eq_ok_iff

/-- The second of three branches matches, so the third is not called. Of literals of which three
match, the last one cut down to what is there, the first is taken although it is empty. -/
theorem choice_is_first_match_empty :
    let start : Match Bytes Bytes := .start (ascii "ab")
    let literals : List Bytes := [ascii "b", [], ascii "a", ascii "abc"]
    let branches : List (Match Bytes Bytes → Match Bytes Bytes) :=
      [ascii "b", ascii "a", ascii "a"].map fun pattern start =>
        start.onRest (Reading.text.literal pattern .whole)
    (Choice.among start (branches.mapIdx Choice.recording)).run [] =
      (.ok (some (ascii "a")) (ascii "b"), [(0, start), (1, start)]) ∧
    Choice.among (m := Id) start (literals.mapIdx (Reading.text.literalBranch .cut)) =
      .ok (some ([], 1)) (ascii "ab") := by
  intro start literals branches
  obtain ⟨-, hcalls, hliterals⟩ :=
    choice_is_first_match (α := UInt8) (ν := Bytes) (m := Id) start
  obtain ⟨hchoice, hplace⟩ := (hliterals Reading.text literals .cut).2 (ascii "ab")
  constructor
  · rw [hcalls branches]
    rfl
  · rw [← hchoice, hplace]
    refine ⟨1, [], [], rfl, rfl, by decide, fun j hj other hother => ?_⟩
    obtain rfl : j = 0 := by omega
    cases hother
    decide

end PrefixMatching
