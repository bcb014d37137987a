import PrefixMatching.Count
import PrefixMatching.Match
import PrefixMatching.Match.Failure

/-!
# Collecting the matched parts of a chain of matches

A collector runs one matching step after another on the rest of the step before. The matched part
of the latest step is held back and joins the collection when the next step succeeds. A step that
fails fails the whole chain and drops what was collected.
-/

namespace PrefixMatching

/-- A chain of matches with the parts collected so far. -/
inductive Collector (μ ρ : Type) where
  /-- A step failed. -/
  | failed
  /-- The parts of the earlier steps, the part of the latest step, and the rest after it. -/
  | active (kept : List μ) (latest : Option μ) (rest : ρ)
deriving DecidableEq, Repr

namespace Collector

variable {μ ν ρ : Type} {m : Type → Type} [Monad m]

instance : Failable (Collector μ ρ) := ⟨.failed⟩

/-- A chain that begins with a match. -/
def ofMatch : Match μ ρ → Collector μ ρ
  | .failed => .failed
  | .ok matched rest => .active [] matched rest

/-! ## Parts -/

/-- Whether a step failed. -/
def isFailed : Collector μ ρ → Bool
  | .failed => true
  | .active _ _ _ => false

/-- The parts of the steps before the latest. -/
def kept : Collector μ ρ → List μ
  | .failed => []
  | .active kept _ _ => kept

/-- The match of the latest step. -/
def last : Collector μ ρ → Match μ ρ
  | .failed => .failed
  | .active _ latest rest => .ok latest rest

/-- The part of the latest step, or the last collected one where that step matched nothing. -/
def latestPart (kept : List μ) (latest : Option μ) : Option μ :=
  latest.or kept.getLast?

/-- All parts in order and the rest. -/
def result? : Collector μ ρ → Option (List μ × ρ)
  | .failed => none
  | .active kept latest rest => some (kept ++ latest.toList, rest)

/-- All parts in order and the rest, or a failure with the caller's note and place. -/
def demand (c : Collector μ ρ) (note : Bytes) (site : Site) :
    Except MatchFailure (List μ × ρ) :=
  demandParts c.result? note site

/-! ## Steps -/

/-- Runs one step on the latest part and the rest. -/
def step (c : Collector μ ρ) (f : Option μ → ρ → m (Match μ ρ)) : m (Collector μ ρ) :=
  match c with
  | .failed => pure .failed
  | .active kept latest rest => do
    match ← f (latestPart kept latest) rest with
    | .failed => pure .failed
    | .ok matched rest' => pure (.active (kept ++ latest.toList) matched rest')

/-- Runs a step `n` times, up to the first failure. -/
def steps (c : Collector μ ρ) (f : Option μ → ρ → m (Match μ ρ)) : Nat → m (Collector μ ρ)
  | 0 => pure c
  | n + 1 =>
    match c with
    | .failed => pure .failed
    | .active kept latest rest => do
      steps (← (Collector.active kept latest rest).step f) f n

/-- Runs a step as often as the count says; a number that is no count fails the chain. -/
def iterate (c : Collector μ ρ) (count : Int) (f : Option μ → ρ → m (Match μ ρ)) :
    m (Collector μ ρ) :=
  match Count.ofInt? count with
  | none => pure .failed
  | some n => c.steps f n

/-- Takes over the rest that `f` leaves and collects nothing. Unlike the other steps, `f` is given
the part of the latest step only. -/
def skipping (c : Collector μ ρ) (f : Option μ → ρ → m (Match ν ρ)) : m (Collector μ ρ) :=
  match c with
  | .failed => pure .failed
  | .active kept latest rest => do
    match ← f latest rest with
    | .failed => pure .failed
    | .ok _ rest' => pure (.active kept latest rest')

/-- Runs one step, but keeps the chain where the step fails. -/
def attempt (c : Collector μ ρ) (f : Option μ → ρ → m (Match μ ρ)) : m (Collector μ ρ) :=
  match c with
  | .failed => pure .failed
  | .active kept latest rest => do
    match ← f (latestPart kept latest) rest with
    | .failed => pure (.active kept latest rest)
    | .ok matched rest' => pure (.active (kept ++ latest.toList) matched rest')

/-- Fails unless the condition holds of the latest part and the rest. -/
def require (c : Collector μ ρ) (condition : Option μ → ρ → m Bool) : m (Collector μ ρ) :=
  match c with
  | .failed => pure .failed
  | .active kept latest rest => do
    if ← condition (latestPart kept latest) rest then pure (.active kept latest rest)
    else pure .failed

/-- Runs `f` on the latest part and the rest for its effects. -/
def watch (c : Collector μ ρ) (f : Option μ → ρ → m Unit) : m (Collector μ ρ) :=
  match c with
  | .failed => pure .failed
  | .active kept latest rest => do
    f (latestPart kept latest) rest
    pure (.active kept latest rest)

end Collector
end PrefixMatching
