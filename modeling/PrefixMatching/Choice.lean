import PrefixMatching.Match

/-!
# Ordered choice

A choice offers one start to a list of branches and keeps the result of the first that matches.
Later branches are not run, and a failed start runs none.
-/

namespace PrefixMatching

/-- A choice on its way through its branches. -/
structure Choice (μ ν ρ : Type) where
  /-- What every branch starts from. -/
  start : Match μ ρ
  /-- The result of the first branch that matched, failed as long as none did. -/
  found : Match ν ρ
deriving DecidableEq, Repr

namespace Choice

variable {μ ν ρ : Type} {m : Type → Type} [Monad m]

/-- A choice that no branch was offered to. -/
def between (start : Match μ ρ) : Choice μ ν ρ := ⟨start, .failed⟩

/-- Whether a branch matched. -/
def isMatched (c : Choice μ ν ρ) : Bool := !c.found.isFailed

/-- Offers the start to a branch, unless the start failed or an earlier branch matched. -/
def offer (c : Choice μ ν ρ) (branch : Match μ ρ → m (Match ν ρ)) : m (Choice μ ν ρ) :=
  if c.start.isFailed || c.isMatched then pure c
  else do
    pure { c with found := ← branch c.start }

/-- Offers the start to several branches in turn. -/
def among (start : Match μ ρ) (branches : List (Match μ ρ → m (Match ν ρ))) : m (Match ν ρ) := do
  let c ← branches.foldlM (fun c branch => c.offer branch) (between start)
  pure c.found

end Choice
end PrefixMatching
