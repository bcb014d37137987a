import PrefixMatching.Proofs.Accumulation
import PrefixMatching.Proofs.Program.Provenance

/-!
# Failed states stay failed

A program that continues a failed state passes it on: every state on its way is failed, it calls no
function, asks no condition, offers no branch and puts no element to a predicate. Only a step that
goes over to a given state can end a failure, and `Continues` excludes those.

Of a failed state no part can be seen, and whoever demands its parts is told that it failed
(`Match.of_isFailed`, `Collector.of_isFailed`).
-/

namespace PrefixMatching

open MonadAttach (CanReturn)
open LawfulMonadAttach (eq_of_canReturn_pure)

/-! ## What a state shows -/

section Parts

variable {μ ρ : Type}

/-- Nothing is left of a failed match, and its parts cannot be had. -/
theorem Match.of_isFailed {x : Match μ ρ} (h : x.isFailed = true) :
    x.matched? = none ∧ x.parts? = none ∧
      ∀ note site, x.demand note site = .error ⟨site, note⟩ := by
  cases x with
  | failed => exact ⟨rfl, rfl, fun _ _ => rfl⟩
  | ok matched rest => cases h

/-- The parts of any other match are there and can be had. -/
theorem Match.of_not_isFailed {x : Match μ ρ} (h : x.isFailed = false) :
    ∃ parts, x.parts? = some parts ∧ ∀ note site, x.demand note site = .ok parts := by
  cases x with
  | failed => cases h
  | ok matched rest => exact ⟨(matched, rest), rfl, fun _ _ => rfl⟩

/-- The result of a failed collector cannot be had. -/
theorem Collector.demand_of_isFailed {c : Collector μ ρ} (h : c.isFailed = true) (note : Bytes)
    (site : Site) : c.demand note site = .error ⟨site, note⟩ := by
  rw [demand, (of_isFailed h).2.2]
  rfl

/-- The result of any other collector is there and can be had. -/
theorem Collector.of_not_isFailed {c : Collector μ ρ} (h : c.isFailed = false) :
    ∃ result, c.result? = some result ∧ ∀ note site, c.demand note site = .ok result := by
  cases c with
  | failed => cases h
  | active kept latest rest => exact ⟨(kept ++ latest.toList, rest), rfl, fun _ _ => rfl⟩

end Parts

namespace Program

variable {α : Type} {e f g : Form}

/-! ## Programs that continue -/

/-- Whether a program continues the state that it is given: no step of its own goes over to a given
state, but a failed one. The functions that it calls and the branches that it offers may do so. -/
def Continues : {e f : Form} → Program α e f → Prop
  | _, _, .seq first second => first.Continues ∧ second.Continues
  | _, _, .become state => state = Failable.failed
  | _, _, _ => True

theorem continues_repeated {p : Program α e e} (hp : p.Continues) (n : Nat) :
    (p.repeated n).Continues := by
  induction n with
  | zero => trivial
  | succ n ih => exact ⟨hp, ih⟩

/-- A program calls a function only in a state that has not failed. -/
theorem Calls.ne_failed {p : Program α e f} {x : e.State α} {body : Program α (.one .plain) g}
    {call : Call α} (h : p.Calls x body call) : x ≠ Failable.failed := by
  cases h <;> nofun

/-! ## Running on a failed state -/

theorem note_nil : (Recorded.note [] : Recorded α Unit) = pure () := by
  funext journal
  show (Id.run ((), { journal with asked := journal.asked ++ [] }) : Unit × Journal α) = _
  rw [List.append_nil]
  rfl

variable [DecidableEq α] {R : Reading α}

/-- On a failed state a program does nothing but fail. -/
theorem run_failed (p : Program α e f) (hp : p.Continues) (call : Option (Call α)) :
    p.run R call Failable.failed = pure Failable.failed := by
  induction p generalizing call with
  | seq first second ihfirst ihsecond =>
    show (do second.run R call (← first.run R call Failable.failed)) = _
    rw [ihfirst hp.1, pure_bind, ihsecond hp.2]
  | become state => exact congrArg pure hp
  | read matcher =>
    -- a matcher that is not run has asked about nothing
    show (do Recorded.note []; pure _) = _
    rw [note_nil, pure_bind]
    rfl
  | readTagged matcher value =>
    show (do Recorded.note []; pure _) = _
    rw [note_nil, pure_bind]
    rfl
  | @collect k =>
    cases k with
    | plain => rfl
    | tagged => rfl
  | iterate count body =>
    show Collector.iterate .failed count _ = pure .failed
    unfold Collector.iterate
    cases Count.ofInt? count with
    | none => rfl
    | some n =>
      cases n with
      | zero => rfl
      | succ n => rfl
  -- each of the other steps looks at the state first, finds it failed and returns
  | _ => rfl

/-- All states on the way from a failed one are failed. -/
theorem eq_failed_of_reaches {p : Program α e f} {call : Option (Call α)} {x : e.State α}
    {y : g.State α} (h : p.Reaches R call x y) (hp : p.Continues) (hx : x = Failable.failed) :
    y = Failable.failed := by
  induction h with
  | before => exact hx
  | after hy =>
    rw [hx, run_failed _ hp] at hy
    exact (eq_of_canReturn_pure hy).symm
  | first _ ih => exact ih hp.1 hx
  | second hz _ ih =>
    rw [hx, run_failed _ hp.1] at hz
    exact ih hp.2 (eq_of_canReturn_pure hz).symm
  | called hcall _ _ => exact absurd hx hcall.ne_failed
  | @iterated _ _ n body _ _ _ _ _ ih =>
    have hstep : (step body).Continues := trivial
    exact ih (continues_repeated hstep n) hx
  | offered hstart _ _ _ =>
    -- a branch is offered a start that has not failed
    rw [hx] at hstart
    cases hstart

/-- Failure is final and silent. A program that continues a failed state, however long it is and
whatever it would call or offer, leaves the journal as it is and comes by failed states only. A
failed state of any type shows no matched part (nor the tag on it) and no collected one, and the
demand for its parts fails with the caller's note and place; the parts of any other state are
returned to whoever demands them. -/
theorem failure_is_final_and_silent (R : Reading α) (p : Program α e f) (hp : p.Continues)
    (call : Option (Call α)) :
    (∀ journal, (p.run R call Failable.failed).run journal = (Failable.failed, journal)) ∧
    (∀ {g : Form} (y : g.State α), p.Reaches R call Failable.failed y → y = Failable.failed) ∧
    (∀ {μ ρ : Type} (x : Match μ ρ),
      (x.isFailed = true → x.matched? = none ∧ x.parts? = none ∧
        ∀ note site, x.demand note site = .error ⟨site, note⟩) ∧
      (x.isFailed = false →
        ∃ parts, x.parts? = some parts ∧ ∀ note site, x.demand note site = .ok parts)) ∧
    (∀ {μ ρ : Type} (c : Collector μ ρ),
      (c.isFailed = true → c.kept = [] ∧ c.last = .failed ∧ c.result? = none ∧
        ∀ note site, c.demand note site = .error ⟨site, note⟩) ∧
      (c.isFailed = false →
        ∃ result, c.result? = some result ∧ ∀ note site, c.demand note site = .ok result)) := by
  refine ⟨fun journal => ?_, fun y hy => eq_failed_of_reaches hy hp rfl,
    fun x => ⟨Match.of_isFailed, Match.of_not_isFailed⟩,
    fun c => ⟨fun h => ?_, Collector.of_not_isFailed⟩⟩
  · rw [run_failed p hp]
    rfl
  · obtain ⟨hkept, hlast, hresult⟩ := Collector.of_isFailed h
    exact ⟨hkept, hlast, hresult, Collector.demand_of_isFailed h⟩

/-- A scan, a choice and a collection that would all go on: after a failed match nothing of this
happens, and its parts are demanded in vain. -/
theorem failure_is_final_and_silent_choice :
    let body : Program UInt8 (.one .plain) (.one .plain) := become (.ok (some [0x61]) [])
    let p : Program UInt8 (.one .plain) .many :=
      seq (read (.takeWhile fun _ => true)) <| seq choose <| seq (offer body) <| seq settle <|
        seq (attempt body) <| seq collect (iterate (-1) body)
    let journal : Journal UInt8 := ⟨[.released 7], [0x61]⟩
    let y : Form.many.State UInt8 := .failed
    let found : Match Bytes Bytes := .ok (some [0x61]) []
    let site : Site := ⟨[], 1, []⟩
    p.Continues ∧ (p.run .text none .failed).run journal = (.failed, journal) ∧
      (p.Reaches .text none .failed y ∧ y = .failed) ∧
      (y.isFailed = true ∧ y.kept = [] ∧ y.demand [] site = .error ⟨site, []⟩) ∧
      (found.isFailed = false ∧
        ∃ parts, found.parts? = some parts ∧ found.demand [] site = .ok parts) := by
  intro body p journal y found site
  have hp : p.Continues := ⟨trivial, trivial, trivial, trivial, trivial, trivial, trivial⟩
  obtain ⟨hrun, hreaches, hmatch, hcollector⟩ := failure_is_final_and_silent .text p hp none
  have hy : p.Reaches .text none .failed y := .after ⟨journal, _, rfl⟩
  obtain ⟨hkept, -, -, hdemand⟩ := (hcollector y).1 rfl
  obtain ⟨parts, hparts, hfound⟩ := (hmatch found).2 rfl
  exact ⟨hp, hrun journal, ⟨hy, hreaches y hy⟩, ⟨rfl, hkept, hdemand [] site⟩,
    rfl, parts, hparts, hfound [] site⟩

end Program
end PrefixMatching
