import PrefixMatching.Collector

/-!
# Collecting as plain accumulation

A collector holds the part of its latest step back until the next step succeeds. An accumulator
does not: it has failed, or it has all parts so far and the rest, and a step adds its part at once.
Whoever only looks at `result?` cannot tell the two apart. Each operation does to the result of a
collector what it does to an accumulator (`result?_collect`), hence so does every chain of them
(`result?_run`).

The functions that an operation calls run in an arbitrary monad, so these equations also say that
both call the same functions with the same arguments in the same order.

A function that skips is an exception: it is given the part of the latest step, the others are given
the last of all parts (`CallsWith`). The two differ after a step that matched nothing, if anything
was collected before it.
-/

namespace PrefixMatching

variable {μ ν ρ β γ : Type} {m : Type → Type} [Monad m]

/-! ## Accumulators -/

/-- All parts so far and the rest, or nothing once a step has failed. -/
abbrev Accumulator (μ ρ : Type) := Option (List μ × ρ)

namespace Accumulator

/-- An accumulator that begins with the part of a match. -/
def ofMatch : Match μ ρ → Accumulator μ ρ
  | .failed => none
  | .ok matched rest => some (matched.toList, rest)

/-- Calls `f` on the last part and the rest and adds the part that it matched. -/
def step (a : Accumulator μ ρ) (f : Option μ → ρ → m (Match μ ρ)) : m (Accumulator μ ρ) :=
  match a with
  | none => pure none
  | some (parts, rest) => do
    match ← f parts.getLast? rest with
    | .failed => pure none
    | .ok matched rest' => pure (some (parts ++ matched.toList, rest'))

/-- Makes the same step `count` times, if that is a number of 64 bits. -/
def iterate (a : Accumulator μ ρ) (count : Int) (f : Option μ → ρ → m (Match μ ρ)) :
    m (Accumulator μ ρ) :=
  if 0 ≤ count ∧ count < UInt64.size then (List.replicate count.toNat f).foldlM step a
  else pure none

/-- Makes a step, but changes nothing where `f` fails. -/
def attempt (a : Accumulator μ ρ) (f : Option μ → ρ → m (Match μ ρ)) : m (Accumulator μ ρ) :=
  match a with
  | none => pure none
  | some (parts, rest) => do
    match ← f parts.getLast? rest with
    | .failed => pure (some (parts, rest))
    | .ok matched rest' => pure (some (parts ++ matched.toList, rest'))

/-- Replaces the rest by the one that `f` leaves of it. -/
def skipping (a : Accumulator μ ρ) (f : ρ → m (Match ν ρ)) : m (Accumulator μ ρ) :=
  match a with
  | none => pure none
  | some (parts, rest) => do
    match ← f rest with
    | .failed => pure none
    | .ok _ rest' => pure (some (parts, rest'))

/-- Fails unless the condition holds of the last part and the rest. -/
def require (a : Accumulator μ ρ) (condition : Option μ → ρ → m Bool) : m (Accumulator μ ρ) :=
  match a with
  | none => pure none
  | some (parts, rest) => do
    if ← condition parts.getLast? rest then pure (some (parts, rest)) else pure none

/-- Calls `f` on the last part and the rest. -/
def watch (a : Accumulator μ ρ) (f : Option μ → ρ → m Unit) : m (Accumulator μ ρ) :=
  match a with
  | none => pure none
  | some (parts, rest) => do
    f parts.getLast? rest
    pure (some (parts, rest))

end Accumulator

/-! ## Operations -/

/-- An operation on a chain of matches and the function that it calls. A function that skips looks
at the rest only. -/
inductive Operation (m : Type → Type) (μ ρ : Type) : Type 1 where
  | step (f : Option μ → ρ → m (Match μ ρ))
  | iterate (count : Int) (f : Option μ → ρ → m (Match μ ρ))
  | attempt (f : Option μ → ρ → m (Match μ ρ))
  | skipping {ν : Type} (f : ρ → m (Match ν ρ))
  | require (condition : Option μ → ρ → m Bool)
  | watch (f : Option μ → ρ → m Unit)

namespace Operation

/-- What an operation does to a collector. -/
def collect (o : Operation m μ ρ) (c : Collector μ ρ) : m (Collector μ ρ) :=
  match o with
  | .step f => c.step f
  | .iterate count f => c.iterate count f
  | .attempt f => c.attempt f
  | .skipping f => c.skipping fun _ rest => f rest
  | .require condition => c.require condition
  | .watch f => c.watch f

/-- What an operation does to an accumulator. -/
def accumulate (o : Operation m μ ρ) (a : Accumulator μ ρ) : m (Accumulator μ ρ) :=
  match o with
  | .step f => a.step f
  | .iterate count f => a.iterate count f
  | .attempt f => a.attempt f
  | .skipping f => a.skipping f
  | .require condition => a.require condition
  | .watch f => a.watch f

/-- Notes the arguments of a call and makes it. -/
def recording (f : Option μ → ρ → m β) (part : Option μ) (rest : ρ) :
    StateT (List (Option μ × ρ)) m β := do
  modify (· ++ [(part, rest)])
  StateT.lift (f part rest)

/-- The operation that notes the arguments of its calls, of a function that skips the rest only. -/
def recorded : Operation m μ ρ → Operation (StateT (List (Option μ × ρ)) m) μ ρ
  | .step f => .step (recording f)
  | .iterate count f => .iterate count (recording f)
  | .attempt f => .attempt (recording f)
  | .skipping f => .skipping (recording (fun _ rest => f rest) none)
  | .require condition => .require (recording condition)
  | .watch f => .watch (recording f)

end Operation

/-- Runs operations one after the other. -/
def Collector.run (c : Collector μ ρ) (operations : List (Operation m μ ρ)) :
    m (Collector μ ρ) :=
  operations.foldlM (fun c o => o.collect c) c

/-- Runs operations one after the other. -/
def Accumulator.run (a : Accumulator μ ρ) (operations : List (Operation m μ ρ)) :
    m (Accumulator μ ρ) :=
  operations.foldlM (fun a o => o.accumulate a) a

/-! ## The result of a collector is an accumulator -/

/-- A map between states that commutes with every step commutes with a run of steps. -/
theorem foldlM_hom [LawfulMonad m] {σ σ' : Type} {ι : Type _} {step : σ → ι → m σ}
    {step' : σ' → ι → m σ'} (f : σ → σ') (hstep : ∀ s i, f <$> step s i = step' (f s) i) (s : σ)
    (is : List ι) : f <$> is.foldlM step s = is.foldlM step' (f s) := by
  induction is generalizing s with
  | nil => exact map_pure _ _
  | cons i is ih =>
    rw [List.foldlM_cons, List.foldlM_cons, map_bind, ← hstep, bind_map_left]
    exact bind_congr fun s' => ih s'

namespace Collector

theorem result?_ofMatch (x : Match μ ρ) : (ofMatch x).result? = Accumulator.ofMatch x := by
  cases x with
  | failed => rfl
  | ok matched rest => rfl

theorem isFailed_eq_isNone (c : Collector μ ρ) : c.isFailed = c.result?.isNone := by
  cases c with
  | failed => rfl
  | active kept latest rest => rfl

/-- The latest part is the last of all parts: a step without a part leaves the one before it. -/
theorem latestPart_eq_getLast? (kept : List μ) (latest : Option μ) :
    latestPart kept latest = (kept ++ latest.toList).getLast? := by
  rw [List.getLast?_append, latestPart]
  cases latest with
  | none => rfl
  | some part => rfl

section Lawful

variable [LawfulMonad m]

theorem result?_step (c : Collector μ ρ) (f : Option μ → ρ → m (Match μ ρ)) :
    result? <$> c.step f = Accumulator.step c.result? f := by
  cases c with
  | failed => exact map_pure _ _
  | active kept latest rest =>
    rw [step, map_bind, latestPart_eq_getLast?]
    apply bind_congr
    intro next
    -- the part of the latest step joins the kept ones, and the new one is held back in its place
    cases next with
    | failed => exact map_pure _ _
    | ok matched rest' => exact map_pure _ _

theorem result?_attempt (c : Collector μ ρ) (f : Option μ → ρ → m (Match μ ρ)) :
    result? <$> c.attempt f = Accumulator.attempt c.result? f := by
  cases c with
  | failed => exact map_pure _ _
  | active kept latest rest =>
    rw [attempt, map_bind, latestPart_eq_getLast?]
    apply bind_congr
    intro next
    cases next with
    | failed => exact map_pure _ _
    | ok matched rest' => exact map_pure _ _

theorem result?_skipping (c : Collector μ ρ) (f : ρ → m (Match ν ρ)) :
    result? <$> c.skipping (fun _ rest => f rest) = Accumulator.skipping c.result? f := by
  cases c with
  | failed => exact map_pure _ _
  | active kept latest rest =>
    rw [skipping, map_bind]
    apply bind_congr
    intro skipped
    cases skipped with
    | failed => exact map_pure _ _
    | ok matched rest' => exact map_pure _ _

theorem result?_require (c : Collector μ ρ) (condition : Option μ → ρ → m Bool) :
    result? <$> c.require condition = Accumulator.require c.result? condition := by
  cases c with
  | failed => exact map_pure _ _
  | active kept latest rest =>
    rw [require, map_bind, latestPart_eq_getLast?]
    apply bind_congr
    intro holds
    cases holds with
    | false => exact map_pure _ _
    | true => exact map_pure _ _

theorem result?_watch (c : Collector μ ρ) (f : Option μ → ρ → m Unit) :
    result? <$> c.watch f = Accumulator.watch c.result? f := by
  cases c with
  | failed => exact map_pure _ _
  | active kept latest rest =>
    rw [watch, map_bind, latestPart_eq_getLast?]
    apply bind_congr
    intro _
    exact map_pure _ _

/-- A failed chain makes no step, so stopping at the first failure is the same as going on. -/
theorem steps_eq_foldlM (c : Collector μ ρ) (f : Option μ → ρ → m (Match μ ρ)) (n : Nat) :
    c.steps f n = (List.replicate n f).foldlM step c := by
  induction n generalizing c with
  | zero => rfl
  | succ n ih =>
    rw [List.replicate_succ, List.foldlM_cons]
    cases c with
    | failed =>
      have hrest : (pure .failed : m (Collector μ ρ)) = steps .failed f n := by cases n <;> rfl
      rw [show step .failed f = pure .failed from rfl, pure_bind, ← ih]
      exact hrest
    | active kept latest rest => exact bind_congr fun c' => ih c'

theorem result?_iterate (c : Collector μ ρ) (count : Int) (f : Option μ → ρ → m (Match μ ρ)) :
    result? <$> c.iterate count f = Accumulator.iterate c.result? count f := by
  rw [iterate, Accumulator.iterate, Count.ofInt?_eq]
  by_cases hcount : 0 ≤ count ∧ count < UInt64.size
  · rw [if_pos hcount, if_pos hcount]
    dsimp only
    rw [steps_eq_foldlM]
    exact foldlM_hom result? result?_step c _
  · rw [if_neg hcount, if_neg hcount]
    exact map_pure _ _

/-- An operation does to the result of a collector what it does to an accumulator. -/
theorem result?_collect (o : Operation m μ ρ) (c : Collector μ ρ) :
    result? <$> o.collect c = o.accumulate c.result? := by
  cases o with
  | step f => exact result?_step c f
  | iterate count f => exact result?_iterate c count f
  | attempt f => exact result?_attempt c f
  | skipping f => exact result?_skipping c f
  | require condition => exact result?_require c condition
  | watch f => exact result?_watch c f

/-- A chain of operations does to the result of a collector what it does to an accumulator. -/
theorem result?_run (c : Collector μ ρ) (operations : List (Operation m μ ρ)) :
    result? <$> c.run operations = Accumulator.run c.result? operations :=
  foldlM_hom result? (fun c o => result?_collect o c) c operations

end Lawful

/-- Nothing is left of a failed chain. -/
theorem of_isFailed {c : Collector μ ρ} (h : c.isFailed = true) :
    c.kept = [] ∧ c.last = .failed ∧ c.result? = none := by
  cases c with
  | failed => exact ⟨rfl, rfl, rfl⟩
  | active kept latest rest => cases h

/-- What a chain of operations leads to, seen from outside, is what it accumulates. -/
theorem observe_run [LawfulMonad m] (start : Match μ ρ) (operations : List (Operation m μ ρ)) :
    (fun c => (c.isFailed, c.result?)) <$> (ofMatch start).run operations =
      (fun a => (a.isNone, a)) <$> (Accumulator.ofMatch start).run operations :=
  calc (fun c => (c.isFailed, c.result?)) <$> (ofMatch start).run operations
      = (fun c : Collector μ ρ => (c.result?.isNone, c.result?)) <$>
          (ofMatch start).run operations := by simp only [isFailed_eq_isNone]
    _ = (fun a => (a.isNone, a)) <$> (result? <$> (ofMatch start).run operations) := by
        rw [Functor.map_map]
    _ = (fun a => (a.isNone, a)) <$> (Accumulator.ofMatch start).run operations := by
        rw [result?_run, result?_ofMatch]

/-- Collecting is accumulating without delay. From every start and through every chain of
operations, whatever monad their functions run in, the collector has failed exactly if the
accumulator has, and its result is the one accumulated. On the way both call the same functions with
the same arguments in the same order, also where the calls are recorded. A failed collector shows no
part that it collected before. -/
theorem collecting_is_accumulating [LawfulMonad m] (start : Match μ ρ)
    (operations : List (Operation m μ ρ)) :
    ((fun c => (c.isFailed, c.result?)) <$> (ofMatch start).run operations =
      (fun a => (a.isNone, a)) <$> (Accumulator.ofMatch start).run operations) ∧
    (((fun c => (c.isFailed, c.result?)) <$>
        (ofMatch start).run (operations.map Operation.recorded)).run [] =
      ((fun a => (a.isNone, a)) <$>
        (Accumulator.ofMatch start).run (operations.map Operation.recorded)).run []) ∧
    ∀ c : Collector μ ρ, c.isFailed = true → c.kept = [] ∧ c.last = .failed ∧ c.result? = none := by
  refine ⟨observe_run start operations, ?_, fun c => of_isFailed⟩
  rw [observe_run]

/-- Two numbers around a separator, with a step in between that matches nothing and an attempt that
fails: the functions called after that step are still given the first number. -/
theorem collecting_is_accumulating_numbers :
    let start : Match Nat (List Nat) := .ok (some 1) [0, 2]
    let operations : List (Operation Id Nat (List Nat)) :=
      [.step fun _ rest => .ok none rest, .skipping fun rest => .ok (some 0) rest.tail,
        .attempt fun _ _ => .failed, .iterate 1 fun _ rest => .ok rest.head? rest.tail]
    ((ofMatch start).run operations).result? = some ([1, 2], []) ∧
    ((fun c => (c.isFailed, c.result?)) <$>
        (ofMatch start).run (operations.map Operation.recorded)).run [] =
      ((false, some ([1, 2], [])),
        [(some 1, [0, 2]), (none, [0, 2]), (some 1, [2]), (some 1, [2])]) := by
  intro start operations
  obtain ⟨hresult, hcalls, -⟩ := collecting_is_accumulating start operations
  exact ⟨congrArg Prod.snd hresult, hcalls.trans rfl⟩

/-! ## What a called function is given -/

/-- The operation calls its function once and first of all, with these arguments, and goes on with
what it returns. -/
def CallsWith (operation : (Option μ → ρ → m β) → m γ) (part : Option μ) (rest : ρ) : Prop :=
  ∃ next : β → m γ, ∀ f, operation f = f part rest >>= next

/-- In a chain that has not failed, a function is called with the last of all parts, except that a
function that skips is called with the part of the latest step. That is the last of all parts unless
the latest step matched nothing and there are parts from before. -/
theorem callsWith_last_part [LawfulMonad m] {c : Collector μ ρ} {parts : List μ} {rest : ρ}
    (h : c.result? = some (parts, rest)) :
    CallsWith (m := m) c.step parts.getLast? rest ∧
    CallsWith (m := m) c.attempt parts.getLast? rest ∧
    CallsWith (m := m) c.require parts.getLast? rest ∧
    CallsWith (m := m) c.watch parts.getLast? rest ∧
    (∀ (count : Int) (n : Nat) (f : Option μ → ρ → m (Match μ ρ)), Count.ofInt? count = some n →
      c.iterate count f = (List.replicate n f).foldlM step c) ∧
    (∀ ν, CallsWith (m := m) (c.skipping (ν := ν)) c.last.matched? rest) ∧
    (c.last.matched? = parts.getLast? ↔ (c.last.matched? = none → parts = [])) := by
  cases c with
  | failed => cases h
  | active kept latest rest =>
    cases h
    rw [← latestPart_eq_getLast?]
    refine ⟨⟨_, fun f => rfl⟩, ⟨_, fun f => rfl⟩, ⟨_, fun f => rfl⟩, ⟨_, fun f => rfl⟩,
      fun count n f hn => ?_, fun ν => ⟨_, fun f => rfl⟩, ?_⟩
    · rw [iterate, hn]
      exact steps_eq_foldlM _ f n
    · show latest = latestPart kept latest ↔ (latest = none → kept ++ latest.toList = [])
      cases latest with
      | none => simp [latestPart, eq_comm]
      | some part => simp [latestPart]

/-- After a first part and a step without one, the functions are given that first part, but those
that skip are given nothing. -/
theorem callsWith_last_part_one :
    let c : Collector Nat (List Nat) := .active [1] none [2]
    c.result? = some ([1], [2]) ∧ CallsWith (m := Id) c.step (some 1) [2] ∧
      CallsWith (m := Id) (c.skipping (ν := Nat)) none [2] ∧ c.last.matched? ≠ some 1 := by
  intro c
  have hresult : c.result? = some ([1], [2]) := rfl
  obtain ⟨hstep, -, -, -, -, hskipping, hlast⟩ := callsWith_last_part (m := Id) hresult
  refine ⟨hresult, hstep, hskipping Nat, fun h => ?_⟩
  exact absurd (hlast.mp h rfl) (by decide)

/-- A function that skips need not be given the last part: of the digits `1`, `1`, `2` the first is
collected and a step matches nothing, then a function that skips is not called with the `1`. -/
theorem skipping_not_callsWith_last_part :
    let c : Collector Bytes Bytes :=
      (ofMatch (.ok (some [0x31]) [0x31, 0x32])).run (m := Id) [.step fun _ rest => .ok none rest]
    c.result? = some ([[0x31]], [0x31, 0x32]) ∧
      ¬ CallsWith (m := Id) (c.skipping (ν := Bytes)) [[0x31]].getLast? [0x31, 0x32] := by
  refine ⟨rfl, ?_⟩
  rintro ⟨next, h⟩
  -- two functions that agree on the last part, but not where there is none
  have hfails := h fun _ _ => .failed
  have hdiffers := h fun part rest => if part = none then .ok none rest else .failed
  have hsame := hfails.trans hdiffers.symm
  cases hsame

end Collector
end PrefixMatching
