import Mathlib.Data.List.Perm.Basic
import PrefixMatching.Choice

/-!
# The order of branches

A choice keeps the first branch that matches (`among_cons`), so the order of its branches matters
in general. Where at most one branch matches it does not: the choice is that branch, wherever it
stands (`among_eq_of_mem`, `among_perm`).
-/

namespace PrefixMatching
namespace Choice

variable {μ ν ρ : Type} {start : Match μ ρ} {order order' : List (Match μ ρ → Match ν ρ)}
  {branch : Match μ ρ → Match ν ρ}

/-- Of two branches one at least fails. -/
def Exclude (start : Match μ ρ) (f g : Match μ ρ → Match ν ρ) : Prop :=
  (f start).isFailed = true ∨ (g start).isFailed = true

theorem Exclude.symm {f g : Match μ ρ → Match ν ρ} (h : Exclude start f g) : Exclude start g f :=
  Or.symm h

section Lawful

variable {m : Type → Type} [Monad m] [LawfulMonad m]

/-- Once a branch has matched, no other one is called. -/
theorem foldlM_offer_of_isMatched {c : Choice μ ν ρ} (hc : c.isMatched = true)
    (branches : List (Match μ ρ → m (Match ν ρ))) :
    branches.foldlM (fun c branch => c.offer branch) c = pure c := by
  induction branches with
  | nil => rfl
  | cons branch branches ih =>
    have hoffer : c.offer branch = pure c := by simp [offer, hc]
    rw [List.foldlM_cons, hoffer, pure_bind, ih]

/-- A choice calls its first branch, and chooses between the others if that fails. -/
theorem among_cons_eq_bind (hstart : start.isFailed = false) (branch : Match μ ρ → m (Match ν ρ))
    (branches : List (Match μ ρ → m (Match ν ρ))) :
    among start (branch :: branches) = (do
      let result ← branch start
      if result.isFailed = true then among start branches else pure result) := by
  have hoffer : (between start).offer branch = (do
      let result ← branch start
      pure ⟨start, result⟩) := by
    show (if start.isFailed || false then _ else _) = _
    rw [hstart]
    rfl
  rw [among, List.foldlM_cons, hoffer, bind_assoc, bind_assoc]
  refine bind_congr fun result => ?_
  rw [pure_bind]
  cases result with
  | failed => rfl
  | ok matched rest =>
    rw [foldlM_offer_of_isMatched (by rfl), pure_bind]
    rfl

end Lawful

/-- A choice is its first branch if that matches, and the choice between the others if not. -/
theorem among_cons (hstart : start.isFailed = false) (branch : Match μ ρ → Match ν ρ)
    (order : List (Match μ ρ → Match ν ρ)) :
    among (m := Id) start (branch :: order) =
      if (branch start).isFailed = true then among (m := Id) start order else branch start :=
  among_cons_eq_bind (m := Id) hstart branch order

/-- A choice whose branches all fail fails. -/
theorem among_eq_failed (hstart : start.isFailed = false)
    (hall : ∀ branch ∈ order, (branch start).isFailed = true) :
    among (m := Id) start order = .failed := by
  induction order with
  | nil => rfl
  | cons branch order ih =>
    have hbranch := hall branch (List.mem_cons_self ..)
    rw [among_cons hstart, if_pos hbranch]
    exact ih fun other hother => hall other (List.mem_cons_of_mem _ hother)

/-- A choice fails or is one of its branches. -/
theorem among_eq_failed_or_mem (hstart : start.isFailed = false)
    (order : List (Match μ ρ → Match ν ρ)) :
    among (m := Id) start order = .failed ∨
      ∃ branch ∈ order, among (m := Id) start order = branch start := by
  induction order with
  | nil => exact .inl rfl
  | cons branch order ih =>
    rw [among_cons hstart]
    split
    · rcases ih with hfailed | ⟨later, hmem, hlater⟩
      · exact .inl hfailed
      · exact .inr ⟨later, List.mem_cons_of_mem _ hmem, hlater⟩
    · exact .inr ⟨branch, List.mem_cons_self .., rfl⟩

/-- A branch that excludes the others is the choice if it matches. -/
theorem among_eq_of_mem (hstart : start.isFailed = false)
    (hexclude : order.Pairwise (Exclude start)) (hmem : branch ∈ order)
    (hbranch : (branch start).isFailed = false) :
    among (m := Id) start order = branch start := by
  induction hexclude with
  | nil => cases hmem
  | @cons first order hfirst _ ih =>
    rw [among_cons hstart]
    rcases List.mem_cons.mp hmem with rfl | hlater
    · rw [if_neg (by simp [hbranch])]
    · -- a branch before the one that matches fails, for it excludes it
      have hfails : (first start).isFailed = true := by
        rcases hfirst branch hlater with hfails | hfails
        · exact hfails
        · simp [hbranch] at hfails
      rw [if_pos hfails]
      exact ih hlater

/-- Branches that exclude each other can be offered in any order. -/
theorem among_perm (hstart : start.isFailed = false) (hexclude : order.Pairwise (Exclude start))
    (hperm : order'.Perm order) :
    among (m := Id) start order' = among (m := Id) start order := by
  have hexclude' : order'.Pairwise (Exclude start) :=
    hperm.symm.pairwise hexclude fun h => h.symm
  by_cases hall : ∀ branch ∈ order, (branch start).isFailed = true
  · rw [among_eq_failed hstart hall,
      among_eq_failed hstart fun branch hmem => hall branch (hperm.mem_iff.mp hmem)]
  · obtain ⟨branch, hmem, hbranch⟩ : ∃ branch ∈ order, ¬ (branch start).isFailed = true := by
      simpa using hall
    rw [Bool.not_eq_true] at hbranch
    rw [among_eq_of_mem hstart hexclude hmem hbranch,
      among_eq_of_mem hstart hexclude' (hperm.mem_iff.mpr hmem) hbranch]

end Choice
end PrefixMatching
