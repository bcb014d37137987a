import PrefixMatching.Match
import PrefixMatching.Reading

/-!
# Matching a literal

A literal is matched unit by unit, but only a boundary can end its match: a literal that stops
inside an element of the sequence does not match.
-/

namespace PrefixMatching

/-- How much of a literal must be there. -/
inductive Extent where
  /-- The whole literal. -/
  | whole
  /-- Of a literal longer than the sequence, only the part that the sequence is long enough for. -/
  | cut
deriving DecidableEq, Repr

namespace Reading

variable {α : Type} [DecidableEq α]

/-- Matches the literal at the start of a sequence. -/
def literal (R : Reading α) (pattern : List α) (extent : Extent) (s : List α) :
    Match (List α) (List α) :=
  if extent = .whole ∧ s.length < pattern.length then .failed
  else
    let n := min s.length pattern.length
    if s.take n = pattern.take n then
      match R.splitAt? s n with
      | none => .failed
      | some (matched, rest) => .ok (some matched) rest
    else .failed

/-- A literal takes as many units as both it and the sequence have. -/
theorem literal_eq_ok {R : Reading α} {pattern s rest : List α} {extent : Extent}
    {matched : Option (List α)} (h : R.literal pattern extent s = .ok matched rest) :
    matched = some (s.take (min s.length pattern.length)) ∧
      rest = s.drop (min s.length pattern.length) := by
  unfold literal at h
  split at h
  · simp at h
  · dsimp only at h
    split at h
    · unfold splitAt? at h
      split at h
      · simp at h
      · rename_i hsplit
        split at hsplit
        · simp only [Option.some.injEq, Prod.mk.injEq] at hsplit
          simp only [Match.ok.injEq] at h
          exact ⟨by rw [← h.1, hsplit.1], by rw [← h.2, hsplit.2]⟩
        · simp at hsplit
    · simp at h

/-- A literal that was there as a whole is no longer than the sequence. -/
theorem length_le_of_literal_whole {R : Reading α} {pattern s rest : List α}
    {matched : Option (List α)} (h : R.literal pattern .whole s = .ok matched rest) :
    pattern.length ≤ s.length := by
  unfold literal at h
  split at h
  · simp at h
  · rename_i hlong
    simp only [true_and, Nat.not_lt] at hlong
    exact hlong

/-- The first of the literals that matches, tagged with its number counted from `index`. -/
def anyLiteralFrom (R : Reading α) (extent : Extent) (s : List α) :
    (index : Nat) → List (List α) → Match (List α × Nat) (List α)
  | _, [] => .failed
  | index, pattern :: patterns =>
    match R.literal pattern extent s with
    | .failed => anyLiteralFrom R extent s (index + 1) patterns
    | .ok matched rest => (Match.ok matched rest).tag index

/-- The first of the literals that matches, tagged with its place in the list. -/
def anyLiteral (R : Reading α) (patterns : List (List α)) (extent : Extent) (s : List α) :
    Match (List α × Nat) (List α) :=
  R.anyLiteralFrom extent s 0 patterns

end Reading
end PrefixMatching
