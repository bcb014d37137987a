/-!
# Matches

A match is what matching at the start of a sequence leaves: the part that was matched, which may
be absent, and the rest after it. A failed match holds neither.

The combinators continue a match with functions of its two parts. These functions run in an
arbitrary monad, so a statement about all monads is a statement about which functions are called,
with which arguments and in which order. A failed match calls nothing and stays failed.

A tagged match is a match whose matched part carries a value: `Match (μ × τ) ρ`. The value exists
only together with a matched part.
-/

namespace PrefixMatching

/-- Results that have a failed value. -/
class Failable (β : Type) where
  /-- The failed value. -/
  failed : β

/-- The outcome of matching at the start of a sequence. -/
inductive Match (μ ρ : Type) where
  /-- Nothing matched. -/
  | failed
  /-- A matched part, if there is one, and the rest of the sequence. -/
  | ok (matched : Option μ) (rest : ρ)
deriving DecidableEq, Repr

namespace Match

variable {μ ν τ υ ρ σ β : Type} {m : Type → Type} [Monad m]

instance : Failable (Match μ ρ) := ⟨.failed⟩

/-! ## Parts -/

/-- A match that consumed nothing of a sequence. -/
def start (rest : ρ) : Match μ ρ := .ok none rest

/-- Whether a match failed. -/
def isFailed : Match μ ρ → Bool
  | .failed => true
  | .ok _ _ => false

/-- The matched part. -/
def matched? : Match μ ρ → Option μ
  | .failed => none
  | .ok matched _ => matched

/-- The rest of the sequence. -/
def rest? : Match μ ρ → Option ρ
  | .failed => none
  | .ok _ rest => some rest

/-- Both parts of a match that did not fail. -/
def parts? : Match μ ρ → Option (Option μ × ρ)
  | .failed => none
  | .ok matched rest => some (matched, rest)

/-- Runs a matcher on the rest. -/
def onRest [Failable β] (x : Match μ ρ) (matcher : ρ → β) : β :=
  match x with
  | .failed => Failable.failed
  | .ok _ rest => matcher rest

/-! ## Continuing a match -/

/-- Continues with `f`. -/
def continueWith [Failable β] (x : Match μ ρ) (f : Option μ → ρ → m β) : m β :=
  match x with
  | .failed => pure Failable.failed
  | .ok matched rest => f matched rest

/-- Continues with `f` if there is a matched part, and fails otherwise. -/
def continueMatched [Failable β] (x : Match μ ρ) (f : μ → ρ → m β) : m β :=
  match x with
  | .ok (some matched) rest => f matched rest
  | _ => pure Failable.failed

/-- Continues with `f` if the condition holds, and fails otherwise. -/
def continueIf [Failable β] (x : Match μ ρ) (condition : Option μ → ρ → m Bool)
    (f : Option μ → ρ → m β) : m β :=
  match x with
  | .failed => pure Failable.failed
  | .ok matched rest => do
    if ← condition matched rest then f matched rest else pure Failable.failed

/-- Continues with `f` if the condition holds, and with `g` otherwise. -/
def continueEither [Failable β] (x : Match μ ρ) (condition : Option μ → ρ → m Bool)
    (f g : Option μ → ρ → m β) : m β :=
  match x with
  | .failed => pure Failable.failed
  | .ok matched rest => do
    if ← condition matched rest then f matched rest else g matched rest

/-- Continues with `f` if the condition holds, and keeps the match otherwise. -/
def extendIf (x : Match μ ρ) (condition : Option μ → ρ → m Bool)
    (f : Option μ → ρ → m (Match μ ρ)) : m (Match μ ρ) :=
  match x with
  | .failed => pure .failed
  | .ok matched rest => do
    if ← condition matched rest then f matched rest else pure (.ok matched rest)

/-- Keeps the matched part and takes over the rest that `f` leaves. -/
def skipping (x : Match μ ρ) (f : Option μ → ρ → m (Match ν ρ)) : m (Match μ ρ) :=
  match x with
  | .failed => pure .failed
  | .ok matched rest => do
    match ← f matched rest with
    | .failed => pure .failed
    | .ok _ rest' => pure (.ok matched rest')

/-- Continues with `f`, but keeps the match where `f` fails. -/
def attempt (x : Match μ ρ) (f : Option μ → ρ → m (Match μ ρ)) : m (Match μ ρ) :=
  match x with
  | .failed => pure .failed
  | .ok matched rest => do
    match ← f matched rest with
    | .failed => pure (.ok matched rest)
    | .ok matched' rest' => pure (.ok matched' rest')

/-! ## Checking and watching a match -/

/-- Fails unless the condition holds. -/
def require (x : Match μ ρ) (condition : Option μ → ρ → m Bool) : m (Match μ ρ) :=
  match x with
  | .failed => pure .failed
  | .ok matched rest => do
    if ← condition matched rest then pure (.ok matched rest) else pure .failed

/-- Runs `f` for its effects. -/
def watch (x : Match μ ρ) (f : Option μ → ρ → m Unit) : m (Match μ ρ) :=
  match x with
  | .failed => pure .failed
  | .ok matched rest => do
    f matched rest
    pure (.ok matched rest)

/-! ## Changing the parts -/

/-- Drops the matched part and keeps what was consumed. -/
def dropMatched : Match μ ρ → Match μ ρ
  | .failed => .failed
  | .ok _ rest => .ok none rest

/-- Replaces the matched part, if there is one. -/
def mapMatched (x : Match μ ρ) (f : μ → m ν) : m (Match ν ρ) :=
  match x with
  | .failed => pure .failed
  | .ok none rest => pure (.ok none rest)
  | .ok (some matched) rest => do
    pure (.ok (some (← f matched)) rest)

/-- Replaces the rest. -/
def mapRest (x : Match μ ρ) (f : ρ → m σ) : m (Match μ σ) :=
  match x with
  | .failed => pure .failed
  | .ok matched rest => do
    pure (.ok matched (← f rest))

/-! ## Tags -/

/-- Attaches a value to the matched part. -/
def tag (x : Match μ ρ) (value : τ) : Match (μ × τ) ρ :=
  match x with
  | .failed => .failed
  | .ok matched rest => .ok (matched.map (·, value)) rest

/-- Replaces the value. -/
def retag (x : Match (μ × τ) ρ) (f : τ → m υ) : m (Match (μ × υ) ρ) :=
  x.mapMatched fun (matched, value) => do
    pure (matched, ← f value)

/-- Hands the value to `f` and keeps the untagged match. -/
def untag (x : Match (μ × τ) ρ) (f : τ → m Unit) : m (Match μ ρ) :=
  x.mapMatched fun (matched, value) => do
    f value
    pure matched

/-- The match without its value. -/
def erase (x : Match (μ × τ) ρ) : Match μ ρ :=
  match x with
  | .failed => .failed
  | .ok matched rest => .ok (matched.map Prod.fst) rest

end Match
end PrefixMatching
