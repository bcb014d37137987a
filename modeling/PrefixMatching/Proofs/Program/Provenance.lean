import PrefixMatching.Proofs.Outcomes
import PrefixMatching.Proofs.Segments

/-!
# Where the parts of a state come from

A program that brings in no data of its own holds segments of its input only: in every state it
reaches, also inside the functions it calls and the branches it offers, the matched parts follow
one another in the input, each cut out between two stops, and the rest is what comes after them.

`KeepsCuts` says this of one program and every start; it holds of every step (one lemma for each)
and so of all programs (`keepsCuts_of_takesFromInput`). `Reaches` adds the states in between.
-/

namespace PrefixMatching

open MonadAttach (CanReturn)
open LawfulMonadAttach (canReturn_bind_imp' eq_of_canReturn_pure)

variable {α : Type}

/-! ## States cut from an input -/

/-- A match whose matched part and rest are cut from the input, if it did not fail. -/
def Kind.IsCut (R : Reading α) (input : List α) (low : Nat) (kind : Kind) :
    Match (kind.Part α) (List α) → Prop
  | .failed => True
  | .ok matched rest => R.IsCut input low (matched.map kind.units).toList rest

/-- A state that holds nothing but segments of the input in order and the rest after them. -/
def Form.IsCut (R : Reading α) (input : List α) (low : Nat) : (form : Form) → form.State α → Prop
  | .one kind, x => kind.IsCut R input low x
  | .many, .failed => True
  | .many, .active kept latest rest => R.IsCut input low (kept ++ latest.toList) rest
  | .choice start found, c => start.IsCut R input low c.start ∧ found.IsCut R input low c.found

variable {R : Reading α} {input : List α} {low mid : Nat}

theorem Form.isCut_failed (form : Form) : form.IsCut R input low Failable.failed := by
  cases form with
  | one kind => trivial
  | many => trivial
  | choice start found => exact ⟨trivial, trivial⟩

theorem Kind.IsCut.mono {kind : Kind} {x : Match (kind.Part α) (List α)}
    (h : kind.IsCut R input mid x) (hlow : low ≤ mid) : kind.IsCut R input low x := by
  cases x with
  | failed => trivial
  | ok matched rest => exact Reading.IsCut.mono h hlow

theorem Form.IsCut.mono {form : Form} {x : form.State α} (h : form.IsCut R input mid x)
    (hlow : low ≤ mid) : form.IsCut R input low x := by
  match form, x with
  | .one _, x => exact Kind.IsCut.mono h hlow
  | .many, .failed => trivial
  | .many, .active _ _ _ => exact Reading.IsCut.mono h hlow
  | .choice _ _, _ => exact ⟨Kind.IsCut.mono h.1 hlow, Kind.IsCut.mono h.2 hlow⟩

theorem Kind.isCut_erase_iff {x : Match (List α × Int) (List α)} :
    Kind.plain.IsCut R input low x.erase ↔ Kind.tagged.IsCut R input low x := by
  match x with
  | .failed => exact Iff.rfl
  | .ok none rest => exact Iff.rfl
  | .ok (some _) rest => exact Iff.rfl

theorem Kind.isCut_plain_iff {matched : Option (List α)} {rest : List α} :
    Kind.plain.IsCut R input low (.ok matched rest) ↔ R.IsCut input low matched.toList rest := by
  cases matched with
  | none => exact Iff.rfl
  | some part => exact Iff.rfl

/-- The start of a program on the rest after a stop. -/
theorem Kind.isCut_start {c : Nat} (hc : R.Stops input c) :
    Kind.plain.IsCut R input c (.start (input.drop c)) :=
  Reading.isCut_nil hc (Nat.le_refl c)

/-- A match on the rest is cut off its front. -/
theorem Kind.isCut_onRest {kind : Kind} {x : Match (kind.Part α) (List α)}
    {matcher : List α → Match (List α) (List α)} (hx : kind.IsCut R input low x)
    (hmatcher : ∀ s, R.IsSplit s (matcher s)) :
    Kind.plain.IsCut R input low (x.onRest matcher) := by
  cases x with
  | failed => trivial
  | ok matched rest =>
    obtain ⟨c, hc, rfl, hparts⟩ := hx
    show Kind.plain.IsCut R input low (matcher (input.drop c))
    cases hy : matcher (input.drop c) with
    | failed => trivial
    | ok matched' rest' =>
      have hcut := Reading.isCut_of_isSplit hc (hmatcher _) hy
      exact Kind.isCut_plain_iff.mpr (hcut.mono hparts.le)

namespace Program

variable {e f g : Form} {k k' : Kind}

/-! ## Programs without data of their own -/

/-- Whether all that a program matches comes from what it runs on: it replaces no matched part and
no rest, makes no part of what it was called with, and goes over to no given state but a failed
one. -/
def TakesFromInput : {e f : Form} → Program α e f → Prop
  | _, _, .done => True
  | _, _, .seq first second => first.TakesFromInput ∧ second.TakesFromInput
  | _, _, .become state => state = Failable.failed
  | _, _, .recall => False
  | _, _, .read _ => True
  | _, _, .readTagged _ _ => True
  | _, _, .readAny _ _ => True
  | _, _, .continueWith body => body.TakesFromInput
  | _, _, .continueMatched body => body.TakesFromInput
  | _, _, .continueIf _ body => body.TakesFromInput
  | _, _, .continueEither _ body otherwise => body.TakesFromInput ∧ otherwise.TakesFromInput
  | _, _, .extendIf _ body => body.TakesFromInput
  | _, _, .skipping body => body.TakesFromInput
  | _, _, .attempt body => body.TakesFromInput
  | _, _, .require _ => True
  | _, _, .watch => True
  | _, _, .dropMatched => True
  | _, _, .mapMatched _ => False
  | _, _, .mapRest _ => False
  | _, _, .tag _ => True
  | _, _, .retag _ => True
  | _, _, .untag => True
  | _, _, .collect => True
  | _, _, .step body => body.TakesFromInput
  | _, _, .iterate _ body => body.TakesFromInput
  | _, _, .skippingBetween body => body.TakesFromInput
  | _, _, .attemptStep body => body.TakesFromInput
  | _, _, .requireLatest _ => True
  | _, _, .watchLatest => True
  | _, _, .choose => True
  | _, _, .offer branch => branch.TakesFromInput
  | _, _, .settle => True

variable [DecidableEq α]

/-- Whether a program that starts on segments of the input ends on segments of it, and cuts none
off before the offset after which it started. -/
def KeepsCuts (R : Reading α) (input : List α) (p : Program α e f) : Prop :=
  ∀ {low : Nat} {call : Option (Call α)} {x : e.State α} {y : f.State α},
    e.IsCut R input low x → CanReturn (p.run R call x) y → f.IsCut R input low y

/-- A called program starts on the rest of its call, so what it matches lies behind the parts that
were there before. -/
theorem KeepsCuts.isCut_of_calling {body : Program α (.one .plain) f} {role : Role} {c : Nat}
    {matched : Option (k.Part α)} {y : f.State α} (hbody : body.KeepsCuts R input)
    (hc : R.Stops input c)
    (h : CanReturn (Recorded.calling role k
      (fun call => body.run R (some call) (.start call.rest)) matched (input.drop c)) y) :
    f.IsCut R input c y :=
  hbody (x := .start (input.drop c)) (Kind.isCut_start hc) (Recorded.canReturn_calling h)

/-- A called program that continues a match. -/
theorem KeepsCuts.isCut_of_continuing {body : Program α (.one .plain) f} {role : Role}
    {matched : Option (k.Part α)} {rest : List α} {y : f.State α}
    (hbody : body.KeepsCuts R input) (hx : k.IsCut R input low (.ok matched rest))
    (h : CanReturn (Recorded.calling role k
      (fun call => body.run R (some call) (.start call.rest)) matched rest) y) :
    f.IsCut R input low y := by
  obtain ⟨c, hc, rfl, hparts⟩ := hx
  exact (hbody.isCut_of_calling hc h).mono hparts.le

/-! ## One step -/

theorem keepsCuts_seq {first : Program α e f} {second : Program α f g}
    (hfirst : first.KeepsCuts R input) (hsecond : second.KeepsCuts R input) :
    (seq first second).KeepsCuts R input := by
  intro low call x y hx hy
  obtain ⟨z, hz, hy⟩ := canReturn_bind_imp' hy
  exact hsecond (hfirst hx hz) hy

/-- Running a matcher on the rest, whatever is done with the elements it asked about. -/
theorem isCut_outcome_onRest [R.Synchronizing] (matcher : Matcher α) (call : Option (Call α))
    {x : Match (k.Part α) (List α)} (hx : k.IsCut R input low x) :
    Kind.plain.IsCut R input low (x.onRest (matcher.trial R call)).outcome := by
  have hpure : (x.onRest (matcher.trial R call)).outcome =
      x.onRest fun s => (matcher.trial R call s).outcome := by
    cases x <;> rfl
  rw [hpure]
  exact Kind.isCut_onRest hx fun s => Reading.isSplit_trial call matcher s

theorem keepsCuts_read [R.Synchronizing] (matcher : Matcher α) :
    (read (k := k) matcher).KeepsCuts R input := by
  intro low call x y hx hy
  obtain ⟨_, -, hy⟩ := canReturn_bind_imp' hy
  rw [← eq_of_canReturn_pure hy]
  exact isCut_outcome_onRest matcher call hx

theorem keepsCuts_readTagged [R.Synchronizing] (matcher : Matcher α) (value : Int) :
    (readTagged (k := k) matcher value).KeepsCuts R input := by
  intro low call x y hx hy
  obtain ⟨_, -, hy⟩ := canReturn_bind_imp' hy
  rw [← eq_of_canReturn_pure hy]
  apply Kind.isCut_erase_iff.mp
  rw [Match.erase_tag]
  exact isCut_outcome_onRest matcher call hx

theorem keepsCuts_readAny [R.Synchronizing] (patterns : List (List α)) (extent : Extent) :
    (readAny (k := k) patterns extent).KeepsCuts R input := by
  intro low call x y hx hy
  have hpure : (Match.onRest x (R.anyLiteral patterns extent)).erase =
      Match.onRest x fun s => (R.anyLiteral patterns extent s).erase := by
    cases x <;> rfl
  apply Kind.isCut_erase_iff.mp
  rw [Match.canReturn_retag hy, hpure]
  exact Kind.isCut_onRest hx fun s => Reading.isSplit_anyLiteralFrom extent s 0 patterns

theorem keepsCuts_continueWith {body : Program α (.one .plain) f}
    (hbody : body.KeepsCuts R input) : (continueWith (k := k) body).KeepsCuts R input := by
  intro low call x y hx hy
  rcases Match.canReturn_continueWith hy with rfl | ⟨matched, rest, rfl, hcalled⟩
  · exact f.isCut_failed
  · exact hbody.isCut_of_continuing hx hcalled

theorem keepsCuts_continueMatched {body : Program α (.one .plain) f}
    (hbody : body.KeepsCuts R input) : (continueMatched (k := k) body).KeepsCuts R input := by
  intro low call x y hx hy
  rcases Match.canReturn_continueMatched hy with rfl | ⟨matched, rest, rfl, hcalled⟩
  · exact f.isCut_failed
  · exact hbody.isCut_of_continuing hx hcalled

theorem keepsCuts_continueIf (condition : Call α → Bool) {body : Program α (.one .plain) f}
    (hbody : body.KeepsCuts R input) : (continueIf (k := k) condition body).KeepsCuts R input := by
  intro low call x y hx hy
  rcases Match.canReturn_continueIf hy with rfl | ⟨matched, rest, rfl, -, hcalled⟩
  · exact f.isCut_failed
  · exact hbody.isCut_of_continuing hx hcalled

theorem keepsCuts_continueEither (condition : Call α → Bool)
    {body otherwise : Program α (.one .plain) f} (hbody : body.KeepsCuts R input)
    (hotherwise : otherwise.KeepsCuts R input) :
    (continueEither (k := k) condition body otherwise).KeepsCuts R input := by
  intro low call x y hx hy
  rcases Match.canReturn_continueEither hy with
    rfl | ⟨matched, rest, rfl, ⟨-, hcalled⟩ | ⟨-, hcalled⟩⟩
  · exact f.isCut_failed
  · exact hbody.isCut_of_continuing hx hcalled
  · exact hotherwise.isCut_of_continuing hx hcalled

theorem keepsCuts_extendIf (condition : Call α → Bool) {body : Program α (.one .plain) (.one k)}
    (hbody : body.KeepsCuts R input) : (extendIf condition body).KeepsCuts R input := by
  intro low call x y hx hy
  rcases Match.canReturn_extendIf hy with rfl | ⟨matched, rest, rfl, -, hcalled⟩
  · exact hx
  · exact hbody.isCut_of_continuing hx hcalled

/-- The kept part lies before the rest that was skipped. -/
theorem keepsCuts_skipping {body : Program α (.one .plain) (.one k')}
    (hbody : body.KeepsCuts R input) : (skipping (k := k) body).KeepsCuts R input := by
  intro low call x y hx hy
  rcases Match.canReturn_skipping hy with rfl | ⟨matched, rest, skipped, rest', rfl, hcalled, rfl⟩
  · trivial
  · obtain ⟨c, hc, rfl, hparts⟩ := hx
    obtain ⟨c', hc', rfl, hskipped⟩ := hbody.isCut_of_calling hc hcalled
    exact ⟨c', hc', rfl, hparts.mono_high hskipped.le⟩

theorem keepsCuts_attempt {body : Program α (.one .plain) (.one k)}
    (hbody : body.KeepsCuts R input) : (attempt body).KeepsCuts R input := by
  intro low call x y hx hy
  rcases Match.canReturn_attempt hy with rfl | ⟨matched, rest, rfl, hcalled⟩
  · exact hx
  · exact hbody.isCut_of_continuing hx hcalled

theorem keepsCuts_require (condition : Call α → Bool) :
    (require (k := k) condition).KeepsCuts R input := by
  intro low call x y hx hy
  rcases Match.canReturn_require hy with rfl | rfl
  · exact hx
  · trivial

theorem keepsCuts_dropMatched : (dropMatched (k := k)).KeepsCuts R input := by
  intro low call x y hx hy
  rw [← eq_of_canReturn_pure hy]
  cases x with
  | failed => trivial
  | ok matched rest =>
    obtain ⟨c, hc, rfl, hparts⟩ := hx
    exact Reading.isCut_nil hc hparts.le

theorem keepsCuts_collect : (collect (k := k)).KeepsCuts R input := by
  intro low call x y hx hy
  have hfirst : ∀ z : Match (List α) (List α), Kind.plain.IsCut R input low z →
      Form.many.IsCut R input low (Collector.ofMatch z) := by
    intro z hz
    cases z with
    | failed => trivial
    | ok matched rest => exact Kind.isCut_plain_iff.mp hz
  cases k with
  | plain =>
    rw [← eq_of_canReturn_pure hy]
    exact hfirst x hx
  | tagged =>
    obtain ⟨z, hz, hy⟩ := canReturn_bind_imp' hy
    rw [← eq_of_canReturn_pure hy, Match.canReturn_untag hz]
    exact hfirst _ (Kind.isCut_erase_iff.mpr hx)

/-- A step collects a part behind those it found. -/
theorem isCut_active_of_calling {body : Program α (.one .plain) (.one .plain)}
    {kept : List (List α)} {latest matched : Option (List α)} {rest rest' : List α}
    (hbody : body.KeepsCuts R input)
    (hc : Form.many.IsCut R input low (.active kept latest rest))
    (h : CanReturn (Recorded.calling .body .plain
      (fun call => body.run R (some call) (.start call.rest))
      (Collector.latestPart kept latest) rest) (.ok matched rest')) :
    Form.many.IsCut R input low (.active (kept ++ latest.toList) matched rest') := by
  obtain ⟨c, hstop, rfl, hparts⟩ := hc
  have hnew : R.IsCut input c matched.toList rest' :=
    Kind.isCut_plain_iff.mp (hbody.isCut_of_calling hstop h)
  exact hparts.append_isCut hnew

theorem keepsCuts_step {body : Program α (.one .plain) (.one .plain)}
    (hbody : body.KeepsCuts R input) : (step body).KeepsCuts R input := by
  intro low call c c' hc hc'
  rcases Collector.canReturn_step hc' with
    rfl | ⟨kept, latest, rest, matched, rest', rfl, hcalled, rfl⟩
  · trivial
  · exact isCut_active_of_calling hbody hc hcalled

/-- A program run several times in a row. -/
def repeated (p : Program α e e) : Nat → Program α e e
  | 0 => done
  | n + 1 => seq p (p.repeated n)

/-- To iterate a step is to run it again and again: a failed collection stays failed. -/
theorem run_iterate {count : Int} {n : Nat} (hn : Count.ofInt? count = some n)
    (body : Program α (.one .plain) (.one .plain)) (call : Option (Call α))
    (c : Collector (List α) (List α)) :
    (iterate count body).run R call c = ((step body).repeated n).run R call c := by
  show Collector.iterate c count _ = _
  unfold Collector.iterate
  rw [hn]
  dsimp only
  clear hn
  induction n generalizing c with
  | zero => rfl
  | succ n ih =>
    cases c with
    | failed =>
      -- the iteration ends here, and the steps that are left do nothing
      show pure Collector.failed = ((step body).repeated n).run R call .failed
      rw [← ih]
      cases n <;> rfl
    | active kept latest rest =>
      exact bind_congr fun c' => ih c'

theorem keepsCuts_repeated {p : Program α e e} (hp : p.KeepsCuts R input) (n : Nat) :
    (p.repeated n).KeepsCuts R input := by
  induction n with
  | zero =>
    intro low call x y hx hy
    exact eq_of_canReturn_pure hy ▸ hx
  | succ n ih => exact keepsCuts_seq hp ih

theorem keepsCuts_iterate (count : Int) {body : Program α (.one .plain) (.one .plain)}
    (hbody : body.KeepsCuts R input) : (iterate count body).KeepsCuts R input := by
  intro low call c c' hc hc'
  cases hn : Count.ofInt? count with
  | none =>
    have hfailed : (iterate count body).run R call c = pure Collector.failed := by
      show Collector.iterate c count _ = _
      unfold Collector.iterate
      rw [hn]
    rw [hfailed] at hc'
    exact eq_of_canReturn_pure hc' ▸ trivial
  | some n =>
    rw [run_iterate hn] at hc'
    exact keepsCuts_repeated (keepsCuts_step hbody) n hc hc'

theorem keepsCuts_skippingBetween {body : Program α (.one .plain) (.one .plain)}
    (hbody : body.KeepsCuts R input) : (skippingBetween body).KeepsCuts R input := by
  intro low call c c' hc hc'
  rcases Collector.canReturn_skipping hc' with
    rfl | ⟨kept, latest, rest, skipped, rest', rfl, hcalled, rfl⟩
  · trivial
  · obtain ⟨a, ha, rfl, hparts⟩ := hc
    obtain ⟨b, hb, rfl, hskipped⟩ := hbody.isCut_of_calling ha hcalled
    exact ⟨b, hb, rfl, hparts.mono_high hskipped.le⟩

theorem keepsCuts_attemptStep {body : Program α (.one .plain) (.one .plain)}
    (hbody : body.KeepsCuts R input) : (attemptStep body).KeepsCuts R input := by
  intro low call c c' hc hc'
  rcases Collector.canReturn_attempt hc' with
    rfl | ⟨kept, latest, rest, matched, rest', rfl, hcalled, rfl⟩
  · exact hc
  · exact isCut_active_of_calling hbody hc hcalled

theorem keepsCuts_requireLatest (condition : Call α → Bool) :
    (requireLatest condition).KeepsCuts R input := by
  intro low call c c' hc hc'
  rcases Collector.canReturn_require hc' with rfl | rfl
  · exact hc
  · trivial

theorem keepsCuts_offer {branch : Program α (.one k) (.one k')}
    (hbranch : branch.KeepsCuts R input) : (offer branch).KeepsCuts R input := by
  intro low call c c' hc hc'
  rcases Choice.canReturn_offer hc' with rfl | ⟨found, hfound, rfl⟩
  · exact hc
  · obtain ⟨_, -, hfound⟩ := canReturn_bind_imp' hfound
    exact ⟨hc.1, hbranch (x := c.start) hc.1 hfound⟩

/-! ## Whole programs -/

/-- A program without data of its own ends on segments of the input it started on. -/
theorem keepsCuts_of_takesFromInput [R.Synchronizing] (p : Program α e f)
    (hp : p.TakesFromInput) : p.KeepsCuts R input := by
  -- the functions that a step calls and the branches that it offers are programs themselves, so the
  -- induction hypothesis speaks about them
  induction p with
  | done =>
    intro low call x y hx hy
    exact eq_of_canReturn_pure hy ▸ hx
  | seq first second ihfirst ihsecond => exact keepsCuts_seq (ihfirst hp.1) (ihsecond hp.2)
  | become state =>
    intro low call x y hx hy
    have hstate : state = Failable.failed := hp
    rw [← eq_of_canReturn_pure hy, hstate]
    exact Form.isCut_failed _
  | read matcher => exact keepsCuts_read matcher
  | readTagged matcher value => exact keepsCuts_readTagged matcher value
  | readAny patterns extent => exact keepsCuts_readAny patterns extent
  | continueWith body ih => exact keepsCuts_continueWith (ih hp)
  | continueMatched body ih => exact keepsCuts_continueMatched (ih hp)
  | continueIf condition body ih => exact keepsCuts_continueIf condition (ih hp)
  | continueEither condition body otherwise ihbody ihotherwise =>
    exact keepsCuts_continueEither condition (ihbody hp.1) (ihotherwise hp.2)
  | extendIf condition body ih => exact keepsCuts_extendIf condition (ih hp)
  | skipping body ih => exact keepsCuts_skipping (ih hp)
  | attempt body ih => exact keepsCuts_attempt (ih hp)
  | require condition => exact keepsCuts_require condition
  | watch =>
    intro low call x y hx hy
    exact Match.canReturn_watch hy ▸ hx
  | dropMatched => exact keepsCuts_dropMatched
  | tag value =>
    intro low call x y hx hy
    rw [← eq_of_canReturn_pure hy]
    apply Kind.isCut_erase_iff.mp
    rw [Match.erase_tag]
    exact hx
  | retag f =>
    intro low call x y hx hy
    apply Kind.isCut_erase_iff.mp
    rw [Match.canReturn_retag hy]
    exact Kind.isCut_erase_iff.mpr hx
  | untag =>
    intro low call x y hx hy
    rw [Match.canReturn_untag hy]
    exact Kind.isCut_erase_iff.mpr hx
  | collect => exact keepsCuts_collect
  | step body ih => exact keepsCuts_step (ih hp)
  | iterate count body ih => exact keepsCuts_iterate count (ih hp)
  | skippingBetween body ih => exact keepsCuts_skippingBetween (ih hp)
  | attemptStep body ih => exact keepsCuts_attemptStep (ih hp)
  | requireLatest condition => exact keepsCuts_requireLatest condition
  | watchLatest =>
    intro low call c c' hc hc'
    exact Collector.canReturn_watch hc' ▸ hc
  | choose =>
    intro low call x y hx hy
    rw [← eq_of_canReturn_pure hy]
    exact ⟨hx, trivial⟩
  | offer branch ih => exact keepsCuts_offer (ih hp)
  | settle =>
    intro low call c y hc hy
    exact eq_of_canReturn_pure hy ▸ hc.2
  -- what is left are the steps that bring in data of their own
  | _ => exact hp.elim

/-! ## All states on the way -/

/-- A program calls one of its functions, which is a program on the rest of the call. -/
inductive Calls : {e f g : Form} → Program α e f → e.State α → Program α (.one .plain) g →
    Call α → Prop where
  | continueWith {k : Kind} {f : Form} {body : Program α (.one .plain) f}
      {matched : Option (k.Part α)} {rest : List α} :
      Calls (continueWith (k := k) body) (.ok matched rest) body ⟨k, matched, rest⟩
  | continueMatched {k : Kind} {f : Form} {body : Program α (.one .plain) f}
      {matched : k.Part α} {rest : List α} :
      Calls (continueMatched (k := k) body) (.ok (some matched) rest) body ⟨k, some matched, rest⟩
  | continueIf {k : Kind} {f : Form} {condition : Call α → Bool}
      {body : Program α (.one .plain) f} {matched : Option (k.Part α)} {rest : List α} :
      condition ⟨k, matched, rest⟩ = true →
      Calls (continueIf (k := k) condition body) (.ok matched rest) body ⟨k, matched, rest⟩
  | continueEither {k : Kind} {f : Form} {condition : Call α → Bool}
      {body otherwise : Program α (.one .plain) f} {matched : Option (k.Part α)}
      {rest : List α} :
      condition ⟨k, matched, rest⟩ = true →
      Calls (continueEither (k := k) condition body otherwise) (.ok matched rest) body
        ⟨k, matched, rest⟩
  | otherwise {k : Kind} {f : Form} {condition : Call α → Bool}
      {body otherwise : Program α (.one .plain) f} {matched : Option (k.Part α)}
      {rest : List α} :
      condition ⟨k, matched, rest⟩ = false →
      Calls (continueEither (k := k) condition body otherwise) (.ok matched rest) otherwise
        ⟨k, matched, rest⟩
  | extendIf {k : Kind} {condition : Call α → Bool} {body : Program α (.one .plain) (.one k)}
      {matched : Option (k.Part α)} {rest : List α} :
      condition ⟨k, matched, rest⟩ = true →
      Calls (extendIf condition body) (.ok matched rest) body ⟨k, matched, rest⟩
  | skipping {k k' : Kind} {body : Program α (.one .plain) (.one k')}
      {matched : Option (k.Part α)} {rest : List α} :
      Calls (skipping (k := k) body) (.ok matched rest) body ⟨k, matched, rest⟩
  | attempt {k : Kind} {body : Program α (.one .plain) (.one k)}
      {matched : Option (k.Part α)} {rest : List α} :
      Calls (attempt body) (.ok matched rest) body ⟨k, matched, rest⟩
  | step {body : Program α (.one .plain) (.one .plain)} {kept : List (List α)}
      {latest : Option (List α)} {rest : List α} :
      Calls (step body) (.active kept latest rest) body
        ⟨.plain, Collector.latestPart kept latest, rest⟩
  | skippingBetween {body : Program α (.one .plain) (.one .plain)} {kept : List (List α)}
      {latest : Option (List α)} {rest : List α} :
      Calls (skippingBetween body) (.active kept latest rest) body ⟨.plain, latest, rest⟩
  | attemptStep {body : Program α (.one .plain) (.one .plain)} {kept : List (List α)}
      {latest : Option (List α)} {rest : List α} :
      Calls (attemptStep body) (.active kept latest rest) body
        ⟨.plain, Collector.latestPart kept latest, rest⟩

/-- A state that a run comes by: before or after one of its steps, or on the way of a function that
it calls or of a branch that it offers. -/
inductive Reaches (R : Reading α) : {e f g : Form} → Program α e f → Option (Call α) → e.State α →
    g.State α → Prop where
  | before {e f : Form} {p : Program α e f} {call : Option (Call α)} {x : e.State α} :
      Reaches R p call x x
  | after {e f : Form} {p : Program α e f} {call : Option (Call α)} {x : e.State α}
      {y : f.State α} : CanReturn (p.run R call x) y → Reaches R p call x y
  | first {e f f' g : Form} {first : Program α e f} {second : Program α f f'}
      {call : Option (Call α)} {x : e.State α} {y : g.State α} :
      Reaches R first call x y → Reaches R (seq first second) call x y
  | second {e f f' g : Form} {first : Program α e f} {second : Program α f f'}
      {call : Option (Call α)} {x : e.State α} {z : f.State α} {y : g.State α} :
      CanReturn (first.run R call x) z → Reaches R second call z y →
      Reaches R (seq first second) call x y
  | called {e f f' g : Form} {p : Program α e f} {body : Program α (.one .plain) f'}
      {call : Option (Call α)} {call' : Call α} {x : e.State α} {y : g.State α} :
      Calls p x body call' → Reaches R body (some call') (.start call'.rest) y →
      Reaches R p call x y
  | iterated {g : Form} {count : Int} {n : Nat} {body : Program α (.one .plain) (.one .plain)}
      {call : Option (Call α)} {c : Collector (List α) (List α)} {y : g.State α} :
      Count.ofInt? count = some n → Reaches R ((step body).repeated n) call c y →
      Reaches R (iterate count body) call c y
  | offered {k k' : Kind} {g : Form} {branch : Program α (.one k) (.one k')}
      {call : Option (Call α)} {c : Choice (k.Part α) (k'.Part α) (List α)} {y : g.State α} :
      c.start.isFailed = false → c.isMatched = false → Reaches R branch none c.start y →
      Reaches R (offer branch) call c y

omit [DecidableEq α] in
theorem Calls.takesFromInput {p : Program α e f} {x : e.State α}
    {body : Program α (.one .plain) g} {call : Call α} (h : p.Calls x body call)
    (hp : p.TakesFromInput) : body.TakesFromInput := by
  cases h with
  | continueEither => exact hp.1
  | otherwise => exact hp.2
  | _ => exact hp

omit [DecidableEq α] in
theorem Calls.exists_stops {p : Program α e f} {x : e.State α} {body : Program α (.one .plain) g}
    {call : Call α} (h : p.Calls x body call) (hx : e.IsCut R input low x) :
    ∃ c, low ≤ c ∧ R.Stops input c ∧ call.rest = input.drop c := by
  cases h <;>
  · obtain ⟨c, hc, hrest, hparts⟩ := hx
    exact ⟨c, hparts.le, hc, hrest⟩

omit [DecidableEq α] in
theorem takesFromInput_repeated {p : Program α e e} (hp : p.TakesFromInput) (n : Nat) :
    (p.repeated n).TakesFromInput := by
  induction n with
  | zero => trivial
  | succ n ih => exact ⟨hp, ih⟩

/-- All states on the way of a program without data of its own are cut from the input. -/
theorem isCut_of_reaches [R.Synchronizing] {p : Program α e f} {call : Option (Call α)}
    {x : e.State α} {y : g.State α} (h : p.Reaches R call x y) (hp : p.TakesFromInput)
    (hx : e.IsCut R input low x) : g.IsCut R input low y := by
  induction h generalizing low with
  | before => exact hx
  | after hy => exact keepsCuts_of_takesFromInput _ hp hx hy
  | first _ ih => exact ih hp.1 hx
  | second hz _ ih => exact ih hp.2 (keepsCuts_of_takesFromInput _ hp.1 hx hz)
  | called hcall _ ih =>
    -- the function starts at a stop `c` of its own, behind the parts of the caller
    obtain ⟨c, hlow, hc, hrest⟩ := hcall.exists_stops hx
    have hstart := Kind.isCut_start hc
    rw [← hrest] at hstart
    exact (ih (hcall.takesFromInput hp) hstart).mono hlow
  | @iterated _ _ n body _ _ _ _ _ ih =>
    have hstep : (step body).TakesFromInput := hp
    exact ih (takesFromInput_repeated hstep n) hx
  | offered _ _ _ ih => exact ih hp hx.1

/-- In every state that a program without data of its own reaches from the start of an input, be
it text or a sequence read unit by unit, the matched parts are segments of that input, one after
the other and each between two stops of its reading, and the rest is the input after them. -/
theorem reached_state_is_cut_from_input :
    (∀ {f g : Form} (input : Bytes) (p : Program UInt8 (.one .plain) f) (y : g.State UInt8),
      p.TakesFromInput → p.Reaches .text none (.start input) y → g.IsCut .text input 0 y) ∧
    (∀ {β : Type} [DecidableEq β] (value : β → Int) {f g : Form} (input : List β)
      (p : Program β (.one .plain) f) (y : g.State β), p.TakesFromInput →
      p.Reaches (.units value) none (.start input) y → g.IsCut (.units value) input 0 y) := by
  constructor
  · intro f g input p y hp hy
    have hstart : Kind.plain.IsCut .text input 0 (.start input) := Kind.isCut_start .start
    exact isCut_of_reaches hy hp hstart
  · intro β _ value f g input p y hp hy
    have hstart : Kind.plain.IsCut (.units value) input 0 (.start input) := Kind.isCut_start .start
    exact isCut_of_reaches hy hp hstart

/-- A comma is skipped between two parts of a text that ends in a malformed byte, and a function is
called on the rest after the first of three units. -/
theorem reached_state_is_cut_from_input_comma :
    (let input : Bytes := [0x61, 0x2C, 0xE2, 0x82, 0xAC, 0xFF]
      let p : Program UInt8 (.one .plain) .many :=
        seq (read (.takeWhile fun c => c ≠ 0x2C)) <| seq collect <|
          seq (skippingBetween (read (.literal (.fixed [0x2C]) .whole)))
            (step (read (.takeExactly (.fixed 1) fun _ => true)))
      let y : Form.many.State UInt8 := .active [[0x61]] (some [0xE2, 0x82, 0xAC]) [0xFF]
      p.TakesFromInput ∧ p.Reaches .text none (.start input) y ∧
        Form.many.IsCut .text input 0 y) ∧
    (let input : List Int := [1, 2, 3]
      let body : Program Int (.one .plain) (.one .plain) :=
        read (.takeAtMost (.fixed 1) fun _ => true)
      let p : Program Int (.one .plain) (.one .plain) := seq body (continueWith body)
      let y : (Form.one .plain).State Int := .ok (some [2]) [3]
      p.TakesFromInput ∧ p.Reaches (.units id) none (.start input) y ∧
        (Form.one .plain).IsCut (.units id) input 0 y) := by
  constructor
  · intro input p y
    have hp : p.TakesFromInput := ⟨trivial, trivial, trivial, trivial⟩
    have hy : p.Reaches .text none (.start input) y := .after ⟨{}, _, rfl⟩
    exact ⟨hp, hy, reached_state_is_cut_from_input.1 input p y hp hy⟩
  · intro input body p y
    have hp : p.TakesFromInput := ⟨trivial, trivial⟩
    have hfirst : CanReturn (body.run (.units id) none (.start input)) (.ok (some [1]) [2, 3]) :=
      ⟨{}, _, rfl⟩
    have hy : p.Reaches (.units id) none (.start input) y :=
      .second hfirst (.called .continueWith (.after ⟨{}, _, rfl⟩))
    exact ⟨hp, hy, reached_state_is_cut_from_input.2 id input p y hp hy⟩

end Program
end PrefixMatching
