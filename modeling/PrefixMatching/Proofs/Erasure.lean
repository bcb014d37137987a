import PrefixMatching.Collector
import PrefixMatching.Match
import PrefixMatching.Proofs.Outcomes

/-!
# Matches without their tags

A tagged match is a plain match whose matched part carries a value. Every combinator does to the
match without the value what it does to the tagged one, provided its functions do: one lemma for
each combinator, `sim_…`.

What a function does includes its effects. A `Simulation` relates computations of two monads whose
results correspond; it is closed under `pure` and `bind`, and this is all that the lemmas use. In a
lawful monad the computation that only maps the result is such a relation (`Simulation.mapping`),
and the journals of programs give another one.
-/

namespace PrefixMatching

/-! ## Computations whose results correspond -/

/-- A relation between the computations of two monads, closed under sequencing: the second
computation does what the first one does, and its result is the given view of the other's. -/
structure Simulation (m m' : Type → Type) [Monad m] [Monad m'] where
  Sim {β β' : Type} (view : β → β') : m β → m' β' → Prop
  pure {β β' : Type} (view : β → β') (b : β) : Sim view (pure b) (pure (view b))
  bind {β β' γ γ' : Type} {view : β → β'} {view' : γ → γ'} {x : m β} {x' : m' β'} {f : β → m γ}
    {f' : β' → m' γ'} : Sim view x x' → (∀ b, Sim view' (f b) (f' (view b))) →
      Sim view' (x >>= f) (x' >>= f')

/-- In one monad, a computation is simulated by the one that maps its result. -/
def Simulation.mapping (m : Type → Type) [Monad m] [LawfulMonad m] : Simulation m m where
  Sim view x x' := view <$> x = x'
  pure view b := map_pure view b
  bind hx hf := by
    rw [← hx, map_bind, bind_map_left]
    exact bind_congr hf

variable {μ ν μ' ν' τ υ ρ σ κ κ' β β' : Type} {m m' : Type → Type} [Monad m] [Monad m']

/-- Failing is simulated by failing. -/
theorem Simulation.sim_failed [Failable β] [Failable β'] (S : Simulation m m') {view : β → β'}
    (hview : view Failable.failed = Failable.failed) :
    S.Sim view (Pure.pure Failable.failed) (Pure.pure Failable.failed) := by
  rw [← hview]
  exact S.pure view _

/-- A computation of which nothing can be seen may go first. -/
theorem Simulation.sim_bind_of_silent [LawfulMonad m'] (S : Simulation m m') {view : β → β'}
    {x : m υ} {f : υ → m β} {y : m' β'} (hx : S.Sim (fun _ => ()) x (Pure.pure ()))
    (hf : ∀ u, S.Sim view (f u) y) : S.Sim view (x >>= f) y := by
  have hy : y = (Pure.pure () >>= fun _ => y) := (pure_bind () fun _ => y).symm
  rw [hy]
  exact S.bind hx hf

namespace Match

/-! ## Matches seen through their matched part -/

/-- The match with a view of its matched part. -/
def view (π : μ → ν) : Match μ ρ → Match ν ρ
  | .failed => .failed
  | .ok matched rest => .ok (matched.map π) rest

/-- Without the tag, the function of a plain match gives what the function of the tagged match
gives, seen through a view. -/
def ErasesTo (view : β → β') (f : Option (μ × τ) → ρ → m β) (f' : Option μ → ρ → m β') : Prop :=
  ∀ matched rest, view <$> f matched rest = f' (matched.map Prod.fst) rest

theorem erase_eq_view (x : Match (μ × τ) ρ) : x.erase = x.view Prod.fst := by
  cases x with
  | failed => rfl
  | ok matched rest => rfl

theorem view_id (x : Match μ ρ) : x.view (fun part => part) = x := by
  cases x with
  | failed => rfl
  | ok matched rest => rw [view, Option.map_id']

theorem view_eq_failed_iff {π : μ → ν} {x : Match μ ρ} : x.view π = .failed ↔ x = .failed := by
  cases x with
  | failed => exact ⟨fun _ => rfl, fun _ => rfl⟩
  | ok matched rest => exact ⟨nofun, nofun⟩

theorem isFailed_view (π : μ → ν) (x : Match μ ρ) : (x.view π).isFailed = x.isFailed := by
  cases x with
  | failed => rfl
  | ok matched rest => rfl

theorem rest?_view (π : μ → ν) (x : Match μ ρ) : (x.view π).rest? = x.rest? := by
  cases x with
  | failed => rfl
  | ok matched rest => rfl

theorem parts?_view (π : μ → ν) (x : Match μ ρ) :
    (x.view π).parts? = x.parts?.map fun (matched, rest) => (matched.map π, rest) := by
  cases x with
  | failed => rfl
  | ok matched rest => rfl

theorem onRest_view [Failable β] (π : μ → ν) (x : Match μ ρ) (matcher : ρ → β) :
    (x.view π).onRest matcher = x.onRest matcher := by
  cases x with
  | failed => rfl
  | ok matched rest => rfl

theorem dropMatched_view (π : μ → ν) (x : Match μ ρ) :
    (x.view π).dropMatched = x.dropMatched.view π := by
  cases x with
  | failed => rfl
  | ok matched rest => rfl

/-! ## One combinator -/

section Combinators

variable (S : Simulation m m') {π : μ → ν} {condition : Option μ → ρ → m Bool}
  {condition' : Option ν → ρ → m' Bool}

section Continuations

variable [Failable β] [Failable β'] {view : β → β'} {f g : Option μ → ρ → m β}
  {f' g' : Option ν → ρ → m' β'}

theorem sim_continueWith (x : Match μ ρ) (hview : view Failable.failed = Failable.failed)
    (hf : ∀ matched rest, S.Sim view (f matched rest) (f' (matched.map π) rest)) :
    S.Sim view (x.continueWith f) ((x.view π).continueWith f') := by
  cases x with
  | failed => exact S.sim_failed hview
  | ok matched rest => exact hf matched rest

theorem sim_continueMatched (x : Match μ ρ) (hview : view Failable.failed = Failable.failed)
    {f : μ → ρ → m β} {f' : ν → ρ → m' β'}
    (hf : ∀ matched rest, S.Sim view (f matched rest) (f' (π matched) rest)) :
    S.Sim view (x.continueMatched f) ((x.view π).continueMatched f') := by
  match x with
  | .failed => exact S.sim_failed hview
  | .ok none rest => exact S.sim_failed hview
  | .ok (some matched) rest => exact hf matched rest

theorem sim_continueIf (x : Match μ ρ) (hview : view Failable.failed = Failable.failed)
    (hcondition : ∀ matched rest,
      S.Sim id (condition matched rest) (condition' (matched.map π) rest))
    (hf : ∀ matched rest, S.Sim view (f matched rest) (f' (matched.map π) rest)) :
    S.Sim view (x.continueIf condition f) ((x.view π).continueIf condition' f') := by
  cases x with
  | failed => exact S.sim_failed hview
  | ok matched rest =>
    refine S.bind (hcondition matched rest) fun holds => ?_
    cases holds with
    | false => exact S.sim_failed hview
    | true => exact hf matched rest

theorem sim_continueEither (x : Match μ ρ) (hview : view Failable.failed = Failable.failed)
    (hcondition : ∀ matched rest,
      S.Sim id (condition matched rest) (condition' (matched.map π) rest))
    (hf : ∀ matched rest, S.Sim view (f matched rest) (f' (matched.map π) rest))
    (hg : ∀ matched rest, S.Sim view (g matched rest) (g' (matched.map π) rest)) :
    S.Sim view (x.continueEither condition f g) ((x.view π).continueEither condition' f' g') := by
  cases x with
  | failed => exact S.sim_failed hview
  | ok matched rest =>
    refine S.bind (hcondition matched rest) fun holds => ?_
    cases holds with
    | false => exact hg matched rest
    | true => exact hf matched rest

end Continuations

section Extensions

variable {f : Option μ → ρ → m (Match μ ρ)} {f' : Option ν → ρ → m' (Match ν ρ)}

theorem sim_extendIf (x : Match μ ρ)
    (hcondition : ∀ matched rest,
      S.Sim id (condition matched rest) (condition' (matched.map π) rest))
    (hf : ∀ matched rest, S.Sim (view π) (f matched rest) (f' (matched.map π) rest)) :
    S.Sim (view π) (x.extendIf condition f) ((x.view π).extendIf condition' f') := by
  cases x with
  | failed => exact S.pure (view π) .failed
  | ok matched rest =>
    refine S.bind (hcondition matched rest) fun holds => ?_
    cases holds with
    | false => exact S.pure (view π) (.ok matched rest)
    | true => exact hf matched rest

theorem sim_attempt (x : Match μ ρ)
    (hf : ∀ matched rest, S.Sim (view π) (f matched rest) (f' (matched.map π) rest)) :
    S.Sim (view π) (x.attempt f) ((x.view π).attempt f') := by
  cases x with
  | failed => exact S.pure (view π) .failed
  | ok matched rest =>
    refine S.bind (hf matched rest) fun y => ?_
    cases y with
    | failed => exact S.pure (view π) (.ok matched rest)
    | ok matched' rest' => exact S.pure (view π) (.ok matched' rest')

/-- Of what was skipped only the rest is looked at. -/
theorem sim_skipping (x : Match μ ρ) {f : Option μ → ρ → m (Match κ ρ)}
    {f' : Option ν → ρ → m' (Match κ' ρ)} {skipped : Match κ ρ → Match κ' ρ}
    (hskipped : ∀ y, (skipped y).rest? = y.rest?)
    (hf : ∀ matched rest, S.Sim skipped (f matched rest) (f' (matched.map π) rest)) :
    S.Sim (view π) (x.skipping f) ((x.view π).skipping f') := by
  cases x with
  | failed => exact S.pure (view π) .failed
  | ok matched rest =>
    refine S.bind (hf matched rest) fun y => ?_
    have hrest := hskipped y
    cases y with
    | failed =>
      cases hy : skipped .failed with
      | failed => exact S.pure (view π) .failed
      | ok matched' rest' =>
        rw [hy] at hrest
        cases hrest
    | ok matched' rest' =>
      cases hy : skipped (.ok matched' rest') with
      | failed =>
        rw [hy] at hrest
        cases hrest
      | ok matched'' rest'' =>
        rw [hy] at hrest
        cases hrest
        exact S.pure (view π) (.ok matched rest')

theorem sim_require (x : Match μ ρ)
    (hcondition : ∀ matched rest,
      S.Sim id (condition matched rest) (condition' (matched.map π) rest)) :
    S.Sim (view π) (x.require condition) ((x.view π).require condition') := by
  cases x with
  | failed => exact S.pure (view π) .failed
  | ok matched rest =>
    refine S.bind (hcondition matched rest) fun holds => ?_
    cases holds with
    | false => exact S.pure (view π) .failed
    | true => exact S.pure (view π) (.ok matched rest)

theorem sim_watch (x : Match μ ρ) {f : Option μ → ρ → m Unit} {f' : Option ν → ρ → m' Unit}
    (hf : ∀ matched rest, S.Sim id (f matched rest) (f' (matched.map π) rest)) :
    S.Sim (view π) (x.watch f) ((x.view π).watch f') := by
  cases x with
  | failed => exact S.pure (view π) .failed
  | ok matched rest => exact S.bind (hf matched rest) fun _ => S.pure (view π) (.ok matched rest)

theorem sim_mapMatched (x : Match μ ρ) {π' : μ' → ν'} {f : μ → m μ'} {f' : ν → m' ν'}
    (hf : ∀ matched, S.Sim π' (f matched) (f' (π matched))) :
    S.Sim (view π') (x.mapMatched f) ((x.view π).mapMatched f') := by
  match x with
  | .failed => exact S.pure (view π') .failed
  | .ok none rest => exact S.pure (view π') (.ok none rest)
  | .ok (some matched) rest =>
    exact S.bind (hf matched) fun matched' => S.pure (view π') (.ok (some matched') rest)

theorem sim_mapRest (x : Match μ ρ) {f : ρ → m σ} {f' : ρ → m' σ}
    (hf : ∀ rest, S.Sim id (f rest) (f' rest)) :
    S.Sim (view π) (x.mapRest f) ((x.view π).mapRest f') := by
  cases x with
  | failed => exact S.pure (view π) .failed
  | ok matched rest => exact S.bind (hf rest) fun rest' => S.pure (view π) (.ok matched rest')

end Extensions
end Combinators

/-! ## Tags -/

section Tags

variable [LawfulMonad m]

/-- Where nothing comes of looking at a tag, what becomes of it cannot be seen without it. -/
theorem sim_retag [LawfulMonad m'] (S : Simulation m m') (x : Match (μ × τ) ρ) {f : τ → m υ}
    (hf : ∀ value, S.Sim (fun _ => ()) (f value) (pure ())) :
    S.Sim (view Prod.fst) (x.retag f) (pure (x.view Prod.fst)) := by
  match x with
  | .failed => exact S.pure (view Prod.fst) .failed
  | .ok none rest => exact S.pure (view Prod.fst) (.ok none rest)
  | .ok (some (matched, value)) rest =>
    rw [retag, mapMatched, bind_assoc]
    refine S.sim_bind_of_silent (hf value) fun value' => ?_
    rw [pure_bind]
    exact S.pure (view Prod.fst) (.ok (some (matched, value')) rest)

theorem sim_untag [LawfulMonad m'] (S : Simulation m m') (x : Match (μ × τ) ρ) {f : τ → m Unit}
    (hf : ∀ value, S.Sim (fun _ => ()) (f value) (pure ())) :
    S.Sim id (x.untag f) (pure (x.view Prod.fst)) := by
  match x with
  | .failed => exact S.pure id failed
  | .ok none rest => exact S.pure id (ok none rest)
  | .ok (some (matched, value)) rest =>
    rw [untag, mapMatched, bind_assoc]
    refine S.sim_bind_of_silent (hf value) fun _ => ?_
    rw [pure_bind]
    exact S.pure id (ok (some matched) rest)

/-- A tag can be replaced without an effect. -/
theorem retag_pure (x : Match (μ × τ) ρ) (f : τ → υ) :
    x.retag (fun value => (pure (f value) : m υ)) =
      pure (x.view fun part => (part.1, f part.2)) := by
  match x with
  | .failed => rfl
  | .ok none rest => rfl
  | .ok (some (matched, value)) rest =>
    rw [retag, mapMatched]
    dsimp only
    rw [pure_bind, pure_bind]
    rfl

/-- Whatever becomes of the tag, the match without it stays. -/
theorem erase_retag (x : Match (μ × τ) ρ) (f : τ → m υ) :
    erase <$> x.retag f = (fun _ => x.erase) <$> x.retag f := by
  match x with
  | .failed => rw [retag, mapMatched, map_pure, map_pure]; rfl
  | .ok none rest => rw [retag, mapMatched, map_pure, map_pure]; rfl
  | .ok (some (matched, value)) rest =>
    rw [retag, mapMatched, map_bind, map_bind, bind_assoc, bind_assoc]
    refine bind_congr fun value' => ?_
    rw [pure_bind, pure_bind, map_pure, map_pure]
    rfl

/-- Whoever is handed the tag, the match without it is left. -/
theorem untag_eq (x : Match (μ × τ) ρ) (f : τ → m Unit) :
    x.untag f = (fun _ => x.erase) <$> x.untag f := by
  match x with
  | .failed => rw [untag, mapMatched, map_pure]; rfl
  | .ok none rest => rw [untag, mapMatched, map_pure]; rfl
  | .ok (some (matched, value)) rest =>
    rw [untag, mapMatched, map_bind, bind_assoc, bind_assoc]
    refine bind_congr fun _ => ?_
    rw [pure_bind, pure_bind, map_pure]
    rfl

end Tags
end Match

/-! ## Collections and choices -/

namespace Collector

variable (S : Simulation m m') {f : Option μ → ρ → m (Match μ ρ)}
  {f' : Option μ → ρ → m' (Match μ ρ)}

theorem sim_step (c : Collector μ ρ) (hf : ∀ part rest, S.Sim id (f part rest) (f' part rest)) :
    S.Sim id (c.step f) (c.step f') := by
  cases c with
  | failed => exact S.pure id failed
  | active kept latest rest =>
    refine S.bind (hf (latestPart kept latest) rest) fun y => ?_
    cases y with
    | failed => exact S.pure id failed
    | ok matched rest' => exact S.pure id (active (kept ++ latest.toList) matched rest')

theorem sim_steps (c : Collector μ ρ) (hf : ∀ part rest, S.Sim id (f part rest) (f' part rest))
    (n : Nat) : S.Sim id (c.steps f n) (c.steps f' n) := by
  induction n generalizing c with
  | zero => exact S.pure id c
  | succ n ih =>
    cases c with
    | failed => exact S.pure id failed
    | active kept latest rest => exact S.bind (sim_step S _ hf) fun c' => ih c'

theorem sim_iterate (c : Collector μ ρ) (hf : ∀ part rest, S.Sim id (f part rest) (f' part rest))
    (count : Int) : S.Sim id (c.iterate count f) (c.iterate count f') := by
  unfold iterate
  cases Count.ofInt? count with
  | none => exact S.pure id failed
  | some n => exact sim_steps S c hf n

theorem sim_attempt (c : Collector μ ρ) (hf : ∀ part rest, S.Sim id (f part rest) (f' part rest)) :
    S.Sim id (c.attempt f) (c.attempt f') := by
  cases c with
  | failed => exact S.pure id failed
  | active kept latest rest =>
    refine S.bind (hf (latestPart kept latest) rest) fun y => ?_
    cases y with
    | failed => exact S.pure id (active kept latest rest)
    | ok matched rest' => exact S.pure id (active (kept ++ latest.toList) matched rest')

theorem sim_skipping (c : Collector μ ρ) {f : Option μ → ρ → m (Match ν ρ)}
    {f' : Option μ → ρ → m' (Match ν ρ)}
    (hf : ∀ part rest, S.Sim id (f part rest) (f' part rest)) :
    S.Sim id (c.skipping f) (c.skipping f') := by
  cases c with
  | failed => exact S.pure id failed
  | active kept latest rest =>
    refine S.bind (hf latest rest) fun y => ?_
    cases y with
    | failed => exact S.pure id failed
    | ok matched rest' => exact S.pure id (active kept latest rest')

theorem sim_require (c : Collector μ ρ) {condition : Option μ → ρ → m Bool}
    {condition' : Option μ → ρ → m' Bool}
    (hcondition : ∀ part rest, S.Sim id (condition part rest) (condition' part rest)) :
    S.Sim id (c.require condition) (c.require condition') := by
  cases c with
  | failed => exact S.pure id failed
  | active kept latest rest =>
    refine S.bind (hcondition (latestPart kept latest) rest) fun holds => ?_
    cases holds with
    | false => exact S.pure id failed
    | true => exact S.pure id (active kept latest rest)

theorem sim_watch (c : Collector μ ρ) {f : Option μ → ρ → m Unit} {f' : Option μ → ρ → m' Unit}
    (hf : ∀ part rest, S.Sim id (f part rest) (f' part rest)) :
    S.Sim id (c.watch f) (c.watch f') := by
  cases c with
  | failed => exact S.pure id failed
  | active kept latest rest =>
    exact S.bind (hf (latestPart kept latest) rest) fun _ => S.pure id (active kept latest rest)

end Collector

namespace Choice

/-- The choice with a view of the matched parts of its start and of what it found. -/
def view (π : μ → ν) (π' : μ' → ν') (c : Choice μ μ' ρ) : Choice ν ν' ρ :=
  ⟨c.start.view π, c.found.view π'⟩

theorem sim_offer (S : Simulation m m') {π : μ → ν} {π' : μ' → ν'} (c : Choice μ μ' ρ)
    {branch : Match μ ρ → m (Match μ' ρ)} {branch' : Match ν ρ → m' (Match ν' ρ)}
    (hbranch : S.Sim (Match.view π') (branch c.start) (branch' (c.start.view π))) :
    S.Sim (view π π') (c.offer branch) ((c.view π π').offer branch') := by
  unfold offer isMatched
  rw [view, Match.isFailed_view, Match.isFailed_view]
  split
  · exact S.pure (view π π') c
  · exact S.bind hbranch fun found => S.pure (view π π') { c with found := found }

end Choice
end PrefixMatching
