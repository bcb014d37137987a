import PrefixMatching.Choice
import PrefixMatching.Collector
import PrefixMatching.Match
import PrefixMatching.Program.Journal

/-!
# What a combinator can return

One inversion lemma for each combinator: where its result can come from, in an arbitrary monad
whose computations have known results (`MonadAttach.CanReturn`). Every invariant of matches is
derived from these lemmas, none of them opens a combinator again.
-/

namespace PrefixMatching

open MonadAttach (CanReturn)
open LawfulMonadAttach (canReturn_bind_imp' eq_of_canReturn_pure)

variable {μ ν τ υ ρ β : Type} {m : Type → Type} [Monad m] [LawfulMonad m] [MonadAttach m]
  [LawfulMonadAttach m]

namespace Match

/-! ## Matches -/

theorem canReturn_continueWith [Failable β] {x : Match μ ρ} {f : Option μ → ρ → m β} {y : β}
    (h : CanReturn (x.continueWith f) y) :
    y = Failable.failed ∨
      ∃ matched rest, x = .ok matched rest ∧ CanReturn (f matched rest) y := by
  cases x with
  | failed => exact .inl (eq_of_canReturn_pure h).symm
  | ok matched rest => exact .inr ⟨matched, rest, rfl, h⟩

theorem canReturn_continueMatched [Failable β] {x : Match μ ρ} {f : μ → ρ → m β} {y : β}
    (h : CanReturn (x.continueMatched f) y) :
    y = Failable.failed ∨
      ∃ matched rest, x = .ok (some matched) rest ∧ CanReturn (f matched rest) y := by
  match x with
  | .failed => exact .inl (eq_of_canReturn_pure h).symm
  | .ok none rest => exact .inl (eq_of_canReturn_pure h).symm
  | .ok (some matched) rest => exact .inr ⟨matched, rest, rfl, h⟩

theorem canReturn_continueIf [Failable β] {x : Match μ ρ} {condition : Option μ → ρ → m Bool}
    {f : Option μ → ρ → m β} {y : β} (h : CanReturn (x.continueIf condition f) y) :
    y = Failable.failed ∨ ∃ matched rest, x = .ok matched rest ∧
      CanReturn (condition matched rest) true ∧ CanReturn (f matched rest) y := by
  cases x with
  | failed => exact .inl (eq_of_canReturn_pure h).symm
  | ok matched rest =>
    obtain ⟨holds, hcondition, h⟩ := canReturn_bind_imp' h
    cases holds with
    | false => exact .inl (eq_of_canReturn_pure h).symm
    | true => exact .inr ⟨matched, rest, rfl, hcondition, h⟩

theorem canReturn_continueEither [Failable β] {x : Match μ ρ} {condition : Option μ → ρ → m Bool}
    {f g : Option μ → ρ → m β} {y : β} (h : CanReturn (x.continueEither condition f g) y) :
    y = Failable.failed ∨ ∃ matched rest, x = .ok matched rest ∧
      (CanReturn (condition matched rest) true ∧ CanReturn (f matched rest) y ∨
        CanReturn (condition matched rest) false ∧ CanReturn (g matched rest) y) := by
  cases x with
  | failed => exact .inl (eq_of_canReturn_pure h).symm
  | ok matched rest =>
    obtain ⟨holds, hcondition, h⟩ := canReturn_bind_imp' h
    cases holds with
    | false => exact .inr ⟨matched, rest, rfl, .inr ⟨hcondition, h⟩⟩
    | true => exact .inr ⟨matched, rest, rfl, .inl ⟨hcondition, h⟩⟩

theorem canReturn_extendIf {x y : Match μ ρ} {condition : Option μ → ρ → m Bool}
    {f : Option μ → ρ → m (Match μ ρ)} (h : CanReturn (x.extendIf condition f) y) :
    y = x ∨ ∃ matched rest, x = .ok matched rest ∧
      CanReturn (condition matched rest) true ∧ CanReturn (f matched rest) y := by
  cases x with
  | failed => exact .inl (eq_of_canReturn_pure h).symm
  | ok matched rest =>
    obtain ⟨holds, hcondition, h⟩ := canReturn_bind_imp' h
    cases holds with
    | false => exact .inl (eq_of_canReturn_pure h).symm
    | true => exact .inr ⟨matched, rest, rfl, hcondition, h⟩

theorem canReturn_skipping {x y : Match μ ρ} {f : Option μ → ρ → m (Match ν ρ)}
    (h : CanReturn (x.skipping f) y) :
    y = .failed ∨ ∃ matched rest skipped rest', x = .ok matched rest ∧
      CanReturn (f matched rest) (.ok skipped rest') ∧ y = .ok matched rest' := by
  cases x with
  | failed => exact .inl (eq_of_canReturn_pure h).symm
  | ok matched rest =>
    obtain ⟨z, hz, h⟩ := canReturn_bind_imp' h
    cases z with
    | failed => exact .inl (eq_of_canReturn_pure h).symm
    | ok skipped rest' =>
      exact .inr ⟨matched, rest, skipped, rest', rfl, hz, (eq_of_canReturn_pure h).symm⟩

theorem canReturn_attempt {x y : Match μ ρ} {f : Option μ → ρ → m (Match μ ρ)}
    (h : CanReturn (x.attempt f) y) :
    y = x ∨ ∃ matched rest, x = .ok matched rest ∧ CanReturn (f matched rest) y := by
  cases x with
  | failed => exact .inl (eq_of_canReturn_pure h).symm
  | ok matched rest =>
    obtain ⟨z, hz, h⟩ := canReturn_bind_imp' h
    cases z with
    | failed => exact .inl (eq_of_canReturn_pure h).symm
    | ok matched' rest' => exact .inr ⟨matched, rest, rfl, eq_of_canReturn_pure h ▸ hz⟩

theorem canReturn_require {x y : Match μ ρ} {condition : Option μ → ρ → m Bool}
    (h : CanReturn (x.require condition) y) : y = x ∨ y = .failed := by
  cases x with
  | failed => exact .inl (eq_of_canReturn_pure h).symm
  | ok matched rest =>
    obtain ⟨holds, -, h⟩ := canReturn_bind_imp' h
    cases holds with
    | false => exact .inr (eq_of_canReturn_pure h).symm
    | true => exact .inl (eq_of_canReturn_pure h).symm

theorem canReturn_watch {x y : Match μ ρ} {f : Option μ → ρ → m Unit}
    (h : CanReturn (x.watch f) y) : y = x := by
  cases x with
  | failed => exact (eq_of_canReturn_pure h).symm
  | ok matched rest =>
    obtain ⟨_, -, h⟩ := canReturn_bind_imp' h
    exact (eq_of_canReturn_pure h).symm

/-- Whatever becomes of the tags, the match without them stays. -/
theorem canReturn_retag {x : Match (μ × τ) ρ} {y : Match (μ × υ) ρ} {f : τ → m υ}
    (h : CanReturn (x.retag f) y) : y.erase = x.erase := by
  match x with
  | .failed => rw [← eq_of_canReturn_pure h]; rfl
  | .ok none rest => rw [← eq_of_canReturn_pure h]; rfl
  | .ok (some (matched, value)) rest =>
    obtain ⟨part, hpart, h⟩ := canReturn_bind_imp' h
    obtain ⟨value', -, hpart⟩ := canReturn_bind_imp' hpart
    rw [← eq_of_canReturn_pure h, ← eq_of_canReturn_pure hpart]
    rfl

theorem canReturn_untag {x : Match (μ × τ) ρ} {y : Match μ ρ} {f : τ → m Unit}
    (h : CanReturn (x.untag f) y) : y = x.erase := by
  match x with
  | .failed => rw [← eq_of_canReturn_pure h]; rfl
  | .ok none rest => rw [← eq_of_canReturn_pure h]; rfl
  | .ok (some (matched, value)) rest =>
    obtain ⟨part, hpart, h⟩ := canReturn_bind_imp' h
    obtain ⟨_, -, hpart⟩ := canReturn_bind_imp' hpart
    rw [← eq_of_canReturn_pure h, ← eq_of_canReturn_pure hpart]
    rfl

theorem erase_tag (x : Match μ ρ) (value : τ) : (x.tag value).erase = x := by
  match x with
  | .failed => rfl
  | .ok none rest => rfl
  | .ok (some matched) rest => rfl

end Match

namespace Collector

/-! ## Collections -/

theorem canReturn_step {c c' : Collector μ ρ} {f : Option μ → ρ → m (Match μ ρ)}
    (h : CanReturn (c.step f) c') :
    c' = .failed ∨ ∃ kept latest rest matched rest', c = .active kept latest rest ∧
      CanReturn (f (latestPart kept latest) rest) (.ok matched rest') ∧
      c' = .active (kept ++ latest.toList) matched rest' := by
  cases c with
  | failed => exact .inl (eq_of_canReturn_pure h).symm
  | active kept latest rest =>
    obtain ⟨z, hz, h⟩ := canReturn_bind_imp' h
    cases z with
    | failed => exact .inl (eq_of_canReturn_pure h).symm
    | ok matched rest' =>
      exact .inr ⟨kept, latest, rest, matched, rest', rfl, hz, (eq_of_canReturn_pure h).symm⟩

theorem canReturn_skipping {c c' : Collector μ ρ} {f : Option μ → ρ → m (Match ν ρ)}
    (h : CanReturn (c.skipping f) c') :
    c' = .failed ∨ ∃ kept latest rest skipped rest', c = .active kept latest rest ∧
      CanReturn (f latest rest) (.ok skipped rest') ∧ c' = .active kept latest rest' := by
  cases c with
  | failed => exact .inl (eq_of_canReturn_pure h).symm
  | active kept latest rest =>
    obtain ⟨z, hz, h⟩ := canReturn_bind_imp' h
    cases z with
    | failed => exact .inl (eq_of_canReturn_pure h).symm
    | ok skipped rest' =>
      exact .inr ⟨kept, latest, rest, skipped, rest', rfl, hz, (eq_of_canReturn_pure h).symm⟩

/-- An attempt is a step, or it leaves everything as it was. -/
theorem canReturn_attempt {c c' : Collector μ ρ} {f : Option μ → ρ → m (Match μ ρ)}
    (h : CanReturn (c.attempt f) c') :
    c' = c ∨ ∃ kept latest rest matched rest', c = .active kept latest rest ∧
      CanReturn (f (latestPart kept latest) rest) (.ok matched rest') ∧
      c' = .active (kept ++ latest.toList) matched rest' := by
  cases c with
  | failed => exact .inl (eq_of_canReturn_pure h).symm
  | active kept latest rest =>
    obtain ⟨z, hz, h⟩ := canReturn_bind_imp' h
    cases z with
    | failed => exact .inl (eq_of_canReturn_pure h).symm
    | ok matched rest' =>
      exact .inr ⟨kept, latest, rest, matched, rest', rfl, hz, (eq_of_canReturn_pure h).symm⟩

theorem canReturn_require {c c' : Collector μ ρ} {condition : Option μ → ρ → m Bool}
    (h : CanReturn (c.require condition) c') : c' = c ∨ c' = .failed := by
  cases c with
  | failed => exact .inl (eq_of_canReturn_pure h).symm
  | active kept latest rest =>
    obtain ⟨holds, -, h⟩ := canReturn_bind_imp' h
    cases holds with
    | false => exact .inr (eq_of_canReturn_pure h).symm
    | true => exact .inl (eq_of_canReturn_pure h).symm

theorem canReturn_watch {c c' : Collector μ ρ} {f : Option μ → ρ → m Unit}
    (h : CanReturn (c.watch f) c') : c' = c := by
  cases c with
  | failed => exact (eq_of_canReturn_pure h).symm
  | active kept latest rest =>
    obtain ⟨_, -, h⟩ := canReturn_bind_imp' h
    exact (eq_of_canReturn_pure h).symm

end Collector

/-! ## Choices and calls -/

theorem Choice.canReturn_offer {c c' : Choice μ ν ρ} {branch : Match μ ρ → m (Match ν ρ)}
    (h : CanReturn (c.offer branch) c') :
    c' = c ∨ ∃ found, CanReturn (branch c.start) found ∧ c' = { c with found := found } := by
  unfold Choice.offer at h
  split at h
  · exact .inl (eq_of_canReturn_pure h).symm
  · obtain ⟨found, hfound, h⟩ := canReturn_bind_imp' h
    exact .inr ⟨found, hfound, (eq_of_canReturn_pure h).symm⟩

/-- A recorded call returns what the function returns. -/
theorem Recorded.canReturn_calling {α : Type} {role : Role} {kind : Kind}
    {f : Call α → Recorded α β} {matched : Option (kind.Part α)} {rest : List α} {y : β}
    (h : CanReturn (Recorded.calling role kind f matched rest) y) :
    CanReturn (f ⟨kind, matched, rest⟩) y := by
  obtain ⟨_, -, h⟩ := canReturn_bind_imp' h
  exact h

end PrefixMatching
