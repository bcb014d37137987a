import PrefixMatching.Element
import PrefixMatching.Proofs.Erasure
import PrefixMatching.Proofs.Program.Provenance

/-!
# Programs without tags

A program over tagged states is, without the tags, the same program over plain states
(`Program.erase`), provided that its conditions and matchers do not look at tags (`IgnoresTags`).
Whoever cannot see tags cannot tell the runs of the two apart: all states on the way are the same
without their tags, so both fail at the same steps, and they call the same functions with the same
arguments and put the same elements to predicates.
-/

namespace PrefixMatching

open MonadAttach (CanReturn)

variable {α : Type}

/-! ## States, calls and journals without tags -/

/-- The form of the states without tags. -/
def Form.erased : Form → Form
  | .one _ => .one .plain
  | .many => .many
  | .choice _ _ => .choice .plain .plain

/-- A state without its tags. -/
def Form.erase : (form : Form) → form.State α → form.erased.State α
  | .one kind, x => x.view kind.units
  | .many, c => c
  | .choice start found, c => c.view start.units found.units

/-- A call without the tag of its matched part. -/
def Call.erase (call : Call α) : Call α := ⟨.plain, call.units?, call.rest⟩

/-- An entry of a journal without tags, nothing where it is about a tag only. -/
def Event.erase? : Event α → Option (Event α)
  | .called role call => some (.called role call.erase)
  | .offered kind start => some (.offered .plain (start.view kind.units))
  | .released _ => none
  | .replacedUnits units => some (.replacedUnits units)
  | .replacedTag _ => none

/-- A journal without tags. -/
def Journal.erase (journal : Journal α) : Journal α :=
  { journal with events := journal.events.filterMap Event.erase? }

/-- A journal with one more entry. -/
def Journal.adding (journal : Journal α) (event : Event α) : Journal α :=
  { journal with events := journal.events ++ [event] }

theorem Journal.erase_adding (journal : Journal α) (event : Event α) :
    (journal.adding event).erase = event.erase?.elim journal.erase journal.erase.adding := by
  unfold adding erase
  rw [List.filterMap_append, List.filterMap_cons, List.filterMap_nil]
  cases event.erase? with
  | none => rw [List.append_nil]; rfl
  | some event' => rfl

theorem Form.erase_failed (form : Form) :
    form.erase (α := α) Failable.failed = Failable.failed := by
  cases form with
  | one kind => rfl
  | many => rfl
  | choice start found => rfl

/-- A state has failed exactly if it has without its tags. -/
theorem Form.erase_eq_failed_iff {form : Form} {x : form.State α} :
    form.erase x = Failable.failed ↔ x = Failable.failed := by
  match form, x with
  | .one _, x => exact Match.view_eq_failed_iff
  | .many, x => exact Iff.rfl
  | .choice start found, ⟨s, y⟩ =>
    constructor
    · intro h
      obtain ⟨hstart, hfound⟩ := Choice.mk.inj h
      cases Match.view_eq_failed_iff.mp hstart
      cases Match.view_eq_failed_iff.mp hfound
      rfl
    · intro h
      rw [h]
      exact erase_failed (.choice start found)

theorem Kind.view_units_plain (x : Match (List α) (List α)) : x.view Kind.plain.units = x :=
  x.view_id

theorem Form.erase_plain : Form.erase (α := α) (.one .plain) = id := funext Kind.view_units_plain

theorem Call.erase_mk (kind : Kind) (matched : Option (kind.Part α)) (rest : List α) :
    Call.erase ⟨kind, matched, rest⟩ = ⟨.plain, matched.map kind.units, rest⟩ := rfl

theorem Call.erase_plain (matched : Option (List α)) (rest : List α) :
    Call.erase ⟨.plain, matched, rest⟩ = ⟨.plain, matched, rest⟩ := by
  rw [erase_mk, show matched.map Kind.plain.units = matched from Option.map_id']

theorem Call.units?_erase (call : Call α) : call.erase.units? = call.units? := by
  show call.units?.map (fun part => part) = call.units?
  rw [Option.map_id']

theorem Call.erase_erase (call : Call α) : call.erase.erase = call.erase := by
  rw [erase, units?_erase]
  rfl

/-! ## Runs that agree but for tags -/

namespace Recorded

/-- Computations whose journals agree but for tags. -/
def untagging (α : Type) : Simulation (Recorded α) (Recorded α) where
  Sim view x x' := ∀ journal journal' : Journal α, journal'.erase = journal.erase →
    (x'.run journal').1 = view (x.run journal).1 ∧
      (x'.run journal').2.erase = (x.run journal).2.erase
  pure view b := fun journal journal' h => ⟨rfl, h⟩
  bind {_ _ _ _ view view' x x' f f'} hx hf := by
    intro journal journal' h
    obtain ⟨hresult, hjournal⟩ := hx journal journal' h
    have hnext := hf (x.run journal).1 _ _ hjournal
    rw [← hresult] at hnext
    exact hnext

/-- Two entries that are the same without tags. -/
theorem sim_record {event event' : Event α} (h : event'.erase? = event.erase?) :
    (untagging α).Sim id (record event) (record event') := by
  intro journal journal' hjournal
  refine ⟨rfl, ?_⟩
  show (journal'.adding event').erase = (journal.adding event).erase
  rw [Journal.erase_adding, Journal.erase_adding, hjournal, h]

/-- An entry about a tag only leaves nothing. -/
theorem erase_adding_of_none {event : Event α} (h : event.erase? = none) (journal : Journal α) :
    (journal.adding event).erase = journal.erase := by
  rw [Journal.erase_adding, h]
  rfl

theorem sim_record_pure {event : Event α} (h : event.erase? = none) :
    (untagging α).Sim (fun _ => ()) (record event) (pure ()) := by
  intro journal journal' hjournal
  refine ⟨rfl, ?_⟩
  show journal'.erase = (journal.adding event).erase
  rw [erase_adding_of_none h, hjournal]

theorem sim_note (asked : List Int) : (untagging α).Sim id (note asked) (note asked) := by
  intro journal journal' hjournal
  obtain ⟨hevents, hasked⟩ := Journal.mk.inj hjournal
  refine ⟨rfl, ?_⟩
  show Journal.mk (journal'.events.filterMap Event.erase?) (journal'.asked ++ asked) =
    Journal.mk (journal.events.filterMap Event.erase?) (journal.asked ++ asked)
  rw [hevents, hasked]

/-- A function that is called with and without the tag. -/
theorem sim_calling {β β' : Type} {view : β → β'} {role : Role} {kind : Kind}
    {f : Call α → Recorded α β} {f' : Call α → Recorded α β'}
    (matched : Option (kind.Part α)) (rest : List α)
    (hf : (untagging α).Sim view (f ⟨kind, matched, rest⟩)
      (f' (Call.erase ⟨kind, matched, rest⟩))) :
    (untagging α).Sim view (calling role kind f matched rest)
      (calling role .plain f' (matched.map kind.units) rest) := by
  have hevent : Event.erase? (.called role (Call.erase ⟨kind, matched, rest⟩)) =
      Event.erase? (.called role (⟨kind, matched, rest⟩ : Call α)) := by
    rw [Event.erase?, Call.erase_erase]
    rfl
  exact (untagging α).bind (sim_record hevent) fun _ => hf

end Recorded

namespace Program

variable {e f g : Form} {k k' : Kind}

/-! ## Programs without tags -/

/-- The same program over states without tags. A literal's place in a list is a tag by nature, so
that tag is dropped. -/
def erase : {e f : Form} → Program α e f → Program α e.erased f.erased
  | _, _, .done => .done
  | _, _, .seq first second => .seq first.erase second.erase
  | _, _, .become state => .become (Form.erase _ state)
  | _, _, .recall => .recall
  | _, _, .read matcher => .read matcher
  | _, _, .readTagged matcher _ => .read matcher
  | _, _, .readAny patterns extent => .seq (.readAny (k := .plain) patterns extent) .untag
  | _, _, .continueWith body => .continueWith body.erase
  | _, _, .continueMatched body => .continueMatched body.erase
  | _, _, .continueIf condition body => .continueIf condition body.erase
  | _, _, .continueEither condition body otherwise =>
    .continueEither condition body.erase otherwise.erase
  | _, _, .extendIf condition body => .extendIf condition body.erase
  | _, _, .skipping body => .skipping body.erase
  | _, _, .attempt body => .attempt body.erase
  | _, _, .require condition => .require condition
  | _, _, .watch => .watch
  | _, _, .dropMatched => .dropMatched
  | _, _, .mapMatched f => .mapMatched f
  | _, _, .mapRest f => .mapRest f
  | _, _, .tag _ => .done
  | _, _, .retag _ => .done
  | _, _, .untag => .done
  | _, _, .collect => .collect
  | _, _, .step body => .step body.erase
  | _, _, .iterate count body => .iterate count body.erase
  | _, _, .skippingBetween body => .skippingBetween body.erase
  | _, _, .attemptStep body => .attemptStep body.erase
  | _, _, .requireLatest condition => .requireLatest condition
  | _, _, .watchLatest => .watchLatest
  | _, _, .choose => .choose
  | _, _, .offer branch => .offer branch.erase
  | _, _, .settle => .settle

end Program

/-- Whether a function of calls does not look at their tags. -/
def Call.IgnoresTag {β : Type} (f : Call α → β) : Prop := ∀ call, f call.erase = f call

variable [DecidableEq α]

/-- Whether a matcher does not take a tag as its argument. -/
def Matcher.IgnoresTag (R : Reading α) (matcher : Matcher α) : Prop :=
  Call.IgnoresTag fun call => matcher.trial R (some call)

namespace Program

variable {e f g : Form} {k k' : Kind} {R : Reading α}

/-- Whether no condition and no matcher of a program, nor of the functions that it calls, looks at
the tag of a call. -/
def IgnoresTags (R : Reading α) : {e f : Form} → Program α e f → Prop
  | _, _, .done => True
  | _, _, .seq first second => first.IgnoresTags R ∧ second.IgnoresTags R
  | _, _, .become _ => True
  | _, _, .recall => True
  | _, _, .read matcher => matcher.IgnoresTag R
  | _, _, .readTagged matcher _ => matcher.IgnoresTag R
  | _, _, .readAny _ _ => True
  | _, _, .continueWith body => body.IgnoresTags R
  | _, _, .continueMatched body => body.IgnoresTags R
  | _, _, .continueIf condition body => Call.IgnoresTag condition ∧ body.IgnoresTags R
  | _, _, .continueEither condition body otherwise =>
    Call.IgnoresTag condition ∧ body.IgnoresTags R ∧ otherwise.IgnoresTags R
  | _, _, .extendIf condition body => Call.IgnoresTag condition ∧ body.IgnoresTags R
  | _, _, .skipping body => body.IgnoresTags R
  | _, _, .attempt body => body.IgnoresTags R
  | _, _, .require condition => Call.IgnoresTag condition
  | _, _, .watch => True
  | _, _, .dropMatched => True
  | _, _, .mapMatched _ => True
  | _, _, .mapRest _ => True
  | _, _, .tag _ => True
  | _, _, .retag _ => True
  | _, _, .untag => True
  | _, _, .collect => True
  | _, _, .step body => body.IgnoresTags R
  | _, _, .iterate _ body => body.IgnoresTags R
  | _, _, .skippingBetween body => body.IgnoresTags R
  | _, _, .attemptStep body => body.IgnoresTags R
  | _, _, .requireLatest _ => True
  | _, _, .watchLatest => True
  | _, _, .choose => True
  | _, _, .offer branch => branch.IgnoresTags R
  | _, _, .settle => True

/-! ## One step -/

/-- A program and the program without tags behave alike, from every state and for every call. -/
def RunsLikeErased (R : Reading α) (p : Program α e f) : Prop :=
  ∀ (call : Option (Call α)) (x : e.State α),
    (Recorded.untagging α).Sim f.erase (p.run R call x)
      (p.erase.run R (call.map Call.erase) (e.erase x))

/-- A called program starts on the rest, with or without a tag in its call. -/
theorem RunsLikeErased.sim_calling {body : Program α (.one .plain) f}
    (hbody : body.RunsLikeErased R) (role : Role) (matched : Option (k.Part α)) (rest : List α) :
    (Recorded.untagging α).Sim f.erase
      (Recorded.calling role k (fun call => body.run R (some call) (.start call.rest)) matched rest)
      (Recorded.calling role .plain (fun call => body.erase.run R (some call) (.start call.rest))
        (matched.map k.units) rest) :=
  Recorded.sim_calling matched rest (hbody (some ⟨k, matched, rest⟩) (.start rest))

omit [DecidableEq α] in
theorem sim_calling_condition {condition : Call α → Bool} {role : Role}
    (h : Call.IgnoresTag condition) (matched : Option (k.Part α)) (rest : List α) :
    (Recorded.untagging α).Sim id
      (Recorded.calling role k (fun call => pure (condition call)) matched rest)
      (Recorded.calling role .plain (fun call => pure (condition call)) (matched.map k.units)
        rest) := by
  apply Recorded.sim_calling
  rw [h]
  exact (Recorded.untagging α).pure id _

theorem RunsLikeErased.sim_calling_part {body : Program α (.one .plain) (.one .plain)}
    (hbody : body.RunsLikeErased R) (part : Option (List α)) (rest : List α) :
    (Recorded.untagging α).Sim id
      (Recorded.calling .body .plain (fun call => body.run R (some call) (.start call.rest)) part
        rest)
      (Recorded.calling .body .plain (fun call => body.erase.run R (some call) (.start call.rest))
        part rest) := by
  -- the parts of a collection are plain, they have no tags to lose
  have hcalling := hbody.sim_calling (k := .plain) .body part rest
  have hpart : part.map Kind.plain.units = part := Option.map_id'
  rw [hpart, Form.erase_plain] at hcalling
  exact hcalling

theorem sim_read {matcher : Matcher α} (result : Match (List α) (List α) → (Form.one k).State α)
    (h : matcher.IgnoresTag R) (call : Option (Call α)) (x : Match (k'.Part α) (List α))
    (hresult : ∀ y, (result y).view k.units = y) :
    (Recorded.untagging α).Sim (Form.erase (.one k))
      (do
        Recorded.note (x.onRest (matcher.trial R call)).asked
        pure (result (x.onRest (matcher.trial R call)).outcome))
      ((read (k := .plain) matcher).run R (call.map Call.erase) (x.view k'.units)) := by
  have htrial : matcher.trial R (call.map Call.erase) = matcher.trial R call := by
    cases call with
    | none => rfl
    | some call => exact h call
  show (Recorded.untagging α).Sim _ _ (do
    Recorded.note (Match.onRest (x.view k'.units) (matcher.trial R (call.map Call.erase))).asked
    pure (Match.onRest (x.view k'.units) (matcher.trial R (call.map Call.erase))).outcome)
  rw [htrial, Match.onRest_view]
  refine (Recorded.untagging α).bind (Recorded.sim_note _) fun _ => ?_
  have hpure := (Recorded.untagging α).pure (Form.erase (.one k))
    (result (x.onRest (matcher.trial R call)).outcome)
  rw [show Form.erase (.one k) (result _) = _ from hresult _] at hpure
  exact hpure

theorem runsLikeErased_recall : (Program.recall (α := α)).RunsLikeErased R := by
  intro call x
  refine Match.sim_continueWith _ x (Form.erase_failed (.one .plain)) fun _ rest => ?_
  have hunits : (call.map Call.erase).bind Call.units? =
      (call.bind Call.units?).map Kind.plain.units := by
    cases call with
    | none => rfl
    | some call => rfl
  rw [hunits]
  exact (Recorded.untagging α).pure (Form.erase (.one .plain)) (.ok (call.bind Call.units?) rest)

omit [DecidableEq α] in
/-- A tag that is dropped at once was never there. -/
theorem sim_pure_untag (y : Match (List α × Int) (List α)) :
    (Recorded.untagging α).Sim (Form.erase (.one .tagged)) (pure y)
      (y.untag fun value => Recorded.record (.released value)) := by
  match y with
  | .failed => exact (Recorded.untagging α).pure (Form.erase (.one .tagged)) .failed
  | .ok none rest => exact (Recorded.untagging α).pure (Form.erase (.one .tagged)) (.ok none rest)
  | .ok (some (units, value)) rest =>
    intro journal journal' hjournal
    exact ⟨rfl, (Recorded.erase_adding_of_none rfl journal').trans hjournal⟩

theorem runsLikeErased_readAny (patterns : List (List α)) (extent : Extent) :
    (readAny (k := k) patterns extent).RunsLikeErased R := by
  intro call x
  show (Recorded.untagging α).Sim _
    (Match.retag (x.onRest (R.anyLiteral patterns extent)) fun index => pure (Int.ofNat index))
    (do
      let y ← Match.retag ((x.view k.units).onRest (R.anyLiteral patterns extent))
        fun index => pure (Int.ofNat index)
      y.untag fun value => Recorded.record (.released value))
  rw [Match.onRest_view, Match.retag_pure, pure_bind]
  exact sim_pure_untag _

theorem runsLikeErased_mapMatched (f : List α → List α) :
    (mapMatched (k := k) f).RunsLikeErased R := by
  intro call x
  refine Match.sim_mapMatched _ x fun part => ?_
  have hrecord : ∀ units, (Recorded.untagging α).Sim id
      (do Recorded.record (.replacedUnits units); pure (f units))
      (do Recorded.record (.replacedUnits units); pure (f units)) :=
    fun units => (Recorded.untagging α).bind (Recorded.sim_record rfl)
      fun _ => (Recorded.untagging α).pure id (f units)
  cases k with
  | plain => exact hrecord part
  | tagged =>
    have hpart := (Recorded.untagging α).bind (hrecord part.1) fun units =>
      (Recorded.untagging α).pure Kind.tagged.units (units, part.2)
    rw [bind_pure] at hpart
    exact hpart

theorem runsLikeErased_collect : (collect (k := k)).RunsLikeErased R := by
  intro call x
  cases k with
  | plain =>
    show (Recorded.untagging α).Sim id (pure (Collector.ofMatch x))
      (pure (Collector.ofMatch (x.view Kind.plain.units)))
    rw [Kind.view_units_plain]
    exact (Recorded.untagging α).pure id _
  | tagged =>
    have hright : (pure (Collector.ofMatch (x.view Prod.fst)) : Recorded α _) =
        (pure (x.view Prod.fst) >>= fun y => pure (Collector.ofMatch y)) := (pure_bind _ _).symm
    show (Recorded.untagging α).Sim id _ (pure (Collector.ofMatch (x.view Prod.fst)))
    rw [hright]
    exact (Recorded.untagging α).bind
      (Match.sim_untag _ x fun value => Recorded.sim_record_pure rfl)
      fun y => (Recorded.untagging α).pure id (Collector.ofMatch y)

theorem runsLikeErased_offer {branch : Program α (.one k) (.one k')}
    (hbranch : branch.RunsLikeErased R) : (offer branch).RunsLikeErased R := by
  intro call c
  refine Choice.sim_offer _ c ?_
  have hevent : Event.erase? (.offered .plain (c.start.view k.units)) =
      Event.erase? (.offered k c.start) := by
    rw [Event.erase?, Kind.view_units_plain]
    rfl
  exact (Recorded.untagging α).bind (Recorded.sim_record hevent) fun _ => hbranch none c.start

/-! ## Whole programs -/

/-- A program that does not look at tags does without them what it does with them. -/
theorem runsLikeErased (p : Program α e f) (hp : p.IgnoresTags R) : p.RunsLikeErased R := by
  induction p with
  | done =>
    intro call x
    exact (Recorded.untagging α).pure (Form.erase _) x
  | seq first second ihfirst ihsecond =>
    intro call x
    exact (Recorded.untagging α).bind (ihfirst hp.1 call x) fun y => ihsecond hp.2 call y
  | become state =>
    intro call x
    exact (Recorded.untagging α).pure (Form.erase _) state
  | «recall» => exact runsLikeErased_recall
  | read matcher =>
    intro call x
    exact sim_read (k := .plain) (fun y => y) hp call x Kind.view_units_plain
  | readTagged matcher value =>
    intro call x
    exact sim_read (k := .tagged) (fun y => y.tag value) hp call x fun y =>
      (Match.erase_eq_view _).symm.trans (Match.erase_tag y value)
  | readAny patterns extent => exact runsLikeErased_readAny patterns extent
  | continueWith body ih =>
    intro call x
    exact Match.sim_continueWith _ x (Form.erase_failed _) ((ih hp).sim_calling .body)
  | continueMatched body ih =>
    intro call x
    exact Match.sim_continueMatched _ x (Form.erase_failed _) fun matched rest =>
      (ih hp).sim_calling .body (some matched) rest
  | continueIf condition body ih =>
    intro call x
    exact Match.sim_continueIf _ x (Form.erase_failed _) (sim_calling_condition hp.1)
      ((ih hp.2).sim_calling .body)
  | continueEither condition body otherwise ihbody ihotherwise =>
    intro call x
    exact Match.sim_continueEither _ x (Form.erase_failed _) (sim_calling_condition hp.1)
      ((ihbody hp.2.1).sim_calling .body) ((ihotherwise hp.2.2).sim_calling .otherwise)
  | extendIf condition body ih =>
    intro call x
    exact Match.sim_extendIf _ x (sim_calling_condition hp.1) ((ih hp.2).sim_calling .body)
  | @skipping k k' body ih =>
    intro call x
    exact Match.sim_skipping _ x (Match.rest?_view k'.units) ((ih hp).sim_calling .body)
  | attempt body ih =>
    intro call x
    exact Match.sim_attempt _ x ((ih hp).sim_calling .body)
  | require condition =>
    intro call x
    exact Match.sim_require _ x (sim_calling_condition hp)
  | watch =>
    intro call x
    exact Match.sim_watch _ x fun matched rest =>
      Recorded.sim_calling matched rest ((Recorded.untagging α).pure id ())
  | @dropMatched k =>
    intro call x
    show (Recorded.untagging α).Sim _ _ (pure (Match.dropMatched (x.view k.units)))
    rw [Match.dropMatched_view]
    exact (Recorded.untagging α).pure (Form.erase (.one k)) _
  | mapMatched f => exact runsLikeErased_mapMatched f
  | mapRest f =>
    intro call x
    exact Match.sim_mapRest _ x fun rest =>
      (Recorded.untagging α).bind (Recorded.sim_record rfl) fun _ =>
        (Recorded.untagging α).pure id (f rest)
  | tag value =>
    intro call x
    have htag := (Recorded.untagging α).pure (Form.erase (.one .tagged)) (Match.tag x value)
    rw [show Form.erase (.one .tagged) (Match.tag x value) = Form.erase (.one .plain) x from
      (Match.erase_eq_view _).symm.trans
        ((Match.erase_tag x value).trans (Kind.view_units_plain x).symm)] at htag
    exact htag
  | retag f =>
    intro call x
    exact Match.sim_retag _ x fun value =>
      (Recorded.untagging α).sim_bind_of_silent (Recorded.sim_record_pure rfl) fun _ =>
        (Recorded.untagging α).pure (fun _ => ()) (f value)
  | untag =>
    intro call x
    have huntag := Match.sim_untag (Recorded.untagging α) x
      (f := fun value => Recorded.record (.released value))
      fun value => Recorded.sim_record_pure rfl
    rw [← Form.erase_plain] at huntag
    exact huntag
  | collect => exact runsLikeErased_collect
  | step body ih =>
    intro call c
    exact Collector.sim_step _ c (ih hp).sim_calling_part
  | iterate count body ih =>
    intro call c
    exact Collector.sim_iterate _ c (ih hp).sim_calling_part count
  | skippingBetween body ih =>
    intro call c
    exact Collector.sim_skipping _ c (ih hp).sim_calling_part
  | attemptStep body ih =>
    intro call c
    exact Collector.sim_attempt _ c (ih hp).sim_calling_part
  | requireLatest condition =>
    intro call c
    exact Collector.sim_require _ c fun part rest =>
      (Recorded.untagging α).bind (Recorded.sim_record rfl) fun _ =>
        (Recorded.untagging α).pure id (condition ⟨.plain, part, rest⟩)
  | watchLatest =>
    intro call c
    exact Collector.sim_watch _ c fun part rest =>
      (Recorded.untagging α).bind (Recorded.sim_record rfl) fun _ =>
        (Recorded.untagging α).pure id ()
  | choose =>
    intro call x
    exact (Recorded.untagging α).pure (Form.erase (.choice _ _)) (Choice.between x)
  | offer branch ih => exact runsLikeErased_offer (ih hp)
  | @settle k k' =>
    intro call c
    exact (Recorded.untagging α).pure (Form.erase (.one k')) c.found

/-! ## All states on the way -/

/-- What a program can return, the program without tags can return without its tags. -/
theorem canReturn_erase {p : Program α e f} (hp : p.IgnoresTags R) {call : Option (Call α)}
    {x : e.State α} {y : f.State α} (h : CanReturn (p.run R call x) y) :
    CanReturn (p.erase.run R (call.map Call.erase) (e.erase x)) (f.erase y) := by
  obtain ⟨journal, after, hrun⟩ := h
  have hresult := (runsLikeErased p hp call x journal journal rfl).1
  have hy : ((p.run R call x).run journal).1 = y := congrArg Prod.fst hrun
  rw [hy] at hresult
  exact ⟨journal, ((p.erase.run R (call.map Call.erase) (e.erase x)).run journal).2,
    Prod.ext hresult rfl⟩

omit [DecidableEq α] in
theorem erase_repeated (p : Program α e e) (n : Nat) :
    (p.repeated n).erase = p.erase.repeated n := by
  induction n with
  | zero => rfl
  | succ n ih =>
    show seq p.erase (p.repeated n).erase = seq p.erase (p.erase.repeated n)
    rw [ih]

theorem ignoresTags_repeated {p : Program α e e} (hp : p.IgnoresTags R) (n : Nat) :
    (p.repeated n).IgnoresTags R := by
  induction n with
  | zero => trivial
  | succ n ih => exact ⟨hp, ih⟩

theorem Calls.ignoresTags {p : Program α e f} {x : e.State α} {body : Program α (.one .plain) g}
    {call : Call α} (h : p.Calls x body call) (hp : p.IgnoresTags R) : body.IgnoresTags R := by
  cases h with
  | continueIf => exact hp.2
  | continueEither => exact hp.2.1
  | otherwise => exact hp.2.2
  | extendIf => exact hp.2
  | _ => exact hp

theorem Calls.erase {p : Program α e f} {x : e.State α} {body : Program α (.one .plain) g}
    {call : Call α} (h : p.Calls x body call) (hp : p.IgnoresTags R) :
    p.erase.Calls (e.erase x) body.erase call.erase := by
  cases h with
  | continueWith => exact .continueWith
  | continueMatched => exact .continueMatched
  | continueIf hcondition => exact .continueIf ((hp.1 _).trans hcondition)
  | continueEither hcondition => exact .continueEither ((hp.1 _).trans hcondition)
  | otherwise hcondition => exact .otherwise ((hp.1 _).trans hcondition)
  | extendIf hcondition => exact .extendIf ((hp.1 _).trans hcondition)
  | skipping => exact .skipping
  | attempt => exact .attempt
  | step =>
    rw [Call.erase_plain]
    exact .step
  | skippingBetween =>
    rw [Call.erase_plain]
    exact .skippingBetween
  | attemptStep =>
    rw [Call.erase_plain]
    exact .attemptStep

/-- Every state on the way of a program is, without its tags, on the way of the program without
tags. -/
theorem reaches_erase {p : Program α e f} {call : Option (Call α)} {x : e.State α}
    {y : g.State α} (h : p.Reaches R call x y) (hp : p.IgnoresTags R) :
    p.erase.Reaches R (call.map Call.erase) (e.erase x) (g.erase y) := by
  induction h with
  | before => exact .before
  | after hy => exact .after (canReturn_erase hp hy)
  | first _ ih => exact .first (ih hp.1)
  | second hz _ ih => exact .second (canReturn_erase hp.1 hz) (ih hp.2)
  | called hcall _ ih => exact .called (hcall.erase hp) (ih (hcall.ignoresTags hp))
  | @iterated _ _ n body _ _ _ hn _ ih =>
    have hstep : (step body).IgnoresTags R := hp
    have hsteps := ih (ignoresTags_repeated hstep n)
    rw [erase_repeated] at hsteps
    exact .iterated hn hsteps
  | @offered k k' _ _ _ c _ hstart hmatched _ ih =>
    refine .offered ?_ ?_ (ih hp)
    · exact (Match.isFailed_view k.units c.start).trans hstart
    · rw [← hmatched]
      exact congrArg (!·) (Match.isFailed_view k'.units c.found)

end Program

/-! ## Erasing commutes with everything -/

/-- A tagged match is a plain match with a tag: what is done to it, is done to the match without the
tag.

* For every operation, with functions in any monad: if the functions that a plain match is given do
  without the tag what those of the tagged match do with it (`Match.ErasesTo`), then so does the
  operation. It does not matter what becomes of a tag, and a tag that is put on and dropped leaves
  no trace.
* For every program that does not look at tags, however long and deeply nested: run without tags it
  ends in the same state without tags, having called the same functions with the same arguments and
  asked about the same elements. All states on its way are states without tags on the other's way,
  and they are failed or not alike. -/
theorem erasing_tags_commutes :
    (∀ {m : Type → Type} [Monad m] [LawfulMonad m] {μ τ ρ : Type} (x : Match (μ × τ) ρ),
      (∀ {β : Type} [Failable β] (matcher : ρ → β), x.erase.onRest matcher = x.onRest matcher) ∧
      (x.erase.parts? = x.parts?.map fun (matched, rest) => (matched.map Prod.fst, rest)) ∧
      x.dropMatched.erase = x.erase.dropMatched ∧
      (∀ {condition : Option (μ × τ) → ρ → m Bool} {condition' : Option μ → ρ → m Bool},
        Match.ErasesTo id condition condition' →
          Match.erase <$> x.require condition = x.erase.require condition') ∧
      (∀ {f : Option (μ × τ) → ρ → m Unit} {f' : Option μ → ρ → m Unit},
        Match.ErasesTo id f f' → Match.erase <$> x.watch f = x.erase.watch f') ∧
      (∀ {κ κ' : Type} {skipped : Match κ ρ → Match κ' ρ} {f : Option (μ × τ) → ρ → m (Match κ ρ)}
        {f' : Option μ → ρ → m (Match κ' ρ)}, (∀ y, (skipped y).rest? = y.rest?) →
        Match.ErasesTo skipped f f' → Match.erase <$> x.skipping f = x.erase.skipping f') ∧
      (∀ {f : Option (μ × τ) → ρ → m (Match (μ × τ) ρ)} {f' : Option μ → ρ → m (Match μ ρ)},
        Match.ErasesTo Match.erase f f' → Match.erase <$> x.attempt f = x.erase.attempt f') ∧
      (∀ {condition : Option (μ × τ) → ρ → m Bool} {condition' : Option μ → ρ → m Bool}
        {f : Option (μ × τ) → ρ → m (Match (μ × τ) ρ)} {f' : Option μ → ρ → m (Match μ ρ)},
        Match.ErasesTo id condition condition' → Match.ErasesTo Match.erase f f' →
          Match.erase <$> x.extendIf condition f = x.erase.extendIf condition' f') ∧
      (∀ {β β' : Type} [Failable β] [Failable β'] {view : β → β'}
        {condition : Option (μ × τ) → ρ → m Bool} {condition' : Option μ → ρ → m Bool}
        {f g : Option (μ × τ) → ρ → m β} {f' g' : Option μ → ρ → m β'},
        view Failable.failed = Failable.failed → Match.ErasesTo id condition condition' →
        Match.ErasesTo view f f' → Match.ErasesTo view g g' →
          view <$> x.continueWith f = x.erase.continueWith f' ∧
          view <$> x.continueMatched (fun matched rest => f (some matched) rest) =
            x.erase.continueMatched (fun matched rest => f' (some matched) rest) ∧
          view <$> x.continueIf condition f = x.erase.continueIf condition' f' ∧
          view <$> x.continueEither condition f g = x.erase.continueEither condition' f' g') ∧
      (∀ {ν : Type} (f : μ → m ν),
        Match.erase <$> x.mapMatched (fun (matched, value) => do pure (← f matched, value)) =
          x.erase.mapMatched f) ∧
      (∀ {σ : Type} (f : ρ → m σ), Match.erase <$> x.mapRest f = x.erase.mapRest f) ∧
      (∀ f : τ → m Unit, Collector.ofMatch <$> x.untag f =
        (fun _ => Collector.ofMatch x.erase) <$> x.untag f) ∧
      (∀ {υ : Type} (f : τ → m υ),
        Match.erase <$> x.retag f = (fun _ => x.erase) <$> x.retag f) ∧
      x.untag (fun _ => (pure () : m Unit)) = pure x.erase ∧
      ∀ (y : Match μ ρ) (value : τ), (y.tag value).erase = y) ∧
    (∀ {α : Type} [DecidableEq α] (R : Reading α) {e f : Form} (p : Program α e f),
      p.IgnoresTags R → ∀ (call : Option (Call α)) (x : e.State α),
        (∀ journal,
          let ran := (p.run R call x).run journal
          let ran' := (p.erase.run R (call.map Call.erase) (e.erase x)).run journal
          ran'.1 = f.erase ran.1 ∧ ran'.2.erase = ran.2.erase) ∧
        ∀ {g : Form} (y : g.State α), p.Reaches R call x y →
          p.erase.Reaches R (call.map Call.erase) (e.erase x) (g.erase y) ∧
            (g.erase y = Failable.failed ↔ y = Failable.failed)) := by
  constructor
  · intro m _ _ μ τ ρ x
    have hview : (Match.erase : Match (μ × τ) ρ → Match μ ρ) = Match.view Prod.fst :=
      funext Match.erase_eq_view
    have hpure : x.untag (fun _ => (pure () : m Unit)) = pure x.erase := by
      have hsim := Match.sim_untag (Simulation.mapping m) x
        (f := fun _ => pure ()) fun value => map_pure _ _
      rw [hview]
      exact (id_map _).symm.trans hsim
    refine ⟨?_, ?_, ?_, ?_, ?_, ?_, ?_, ?_, ?_, ?_, ?_, ?_, x.erase_retag, hpure, Match.erase_tag⟩
    · intro β _ matcher
      rw [hview, Match.onRest_view]
    · rw [hview, Match.parts?_view]
    · rw [hview, Match.dropMatched_view]
    · intro condition condition' hcondition
      rw [hview]
      exact Match.sim_require (Simulation.mapping m) x hcondition
    · intro f f' hf
      rw [hview]
      exact Match.sim_watch (Simulation.mapping m) x hf
    · intro κ κ' skipped f f' hskipped hf
      rw [hview]
      exact Match.sim_skipping (Simulation.mapping m) x hskipped hf
    · intro f f' hf
      rw [hview] at hf ⊢
      exact Match.sim_attempt (Simulation.mapping m) x hf
    · intro condition condition' f f' hcondition hf
      rw [hview] at hf ⊢
      exact Match.sim_extendIf (Simulation.mapping m) x hcondition hf
    · intro β β' _ _ view condition condition' f g f' g' hfailed hcondition hf hg
      rw [hview]
      refine ⟨?_, ?_, ?_, ?_⟩
      · exact Match.sim_continueWith (Simulation.mapping m) x hfailed hf
      · exact Match.sim_continueMatched (Simulation.mapping m) x hfailed
          fun matched rest => hf (some matched) rest
      · exact Match.sim_continueIf (Simulation.mapping m) x hfailed hcondition hf
      · exact Match.sim_continueEither (Simulation.mapping m) x hfailed hcondition hf hg
    · intro ν f
      have hf : ∀ part : μ × τ, (Prod.fst : ν × τ → ν) <$>
          (do pure (← f part.1, part.2) : m (ν × τ)) = f part.1 := by
        intro part
        rw [map_bind]
        simp only [map_pure, bind_pure]
      rw [hview, show (Match.erase : Match (ν × τ) ρ → _) = _ from funext Match.erase_eq_view]
      exact Match.sim_mapMatched (Simulation.mapping m) x hf
    · intro σ f
      rw [hview, show (Match.erase : Match (μ × τ) σ → _) = _ from funext Match.erase_eq_view]
      exact Match.sim_mapRest (Simulation.mapping m) x fun rest => id_map _
    · intro f
      calc Collector.ofMatch <$> x.untag f
          = Collector.ofMatch <$> (fun _ => x.erase) <$> x.untag f := by rw [← x.untag_eq f]
        _ = (fun _ => Collector.ofMatch x.erase) <$> x.untag f := Functor.map_map _ _ _
  · intro α _ R e f p hp call x
    refine ⟨fun journal => Program.runsLikeErased p hp call x journal journal rfl, fun y hy => ?_⟩
    exact ⟨Program.reaches_erase hy hp, Form.erase_eq_failed_iff⟩

/-- A tagged digit that is checked, tagged anew and continued by a second digit, beside the plain
digit to which the same is done. -/
theorem erasing_tags_commutes_digits :
    let p : Program UInt8 (.one .tagged) (.one .tagged) :=
      .seq (.require fun call => call.units?.isSome) <| .seq (.retag (· + 1)) <|
        .attempt (.readTagged (.takeExactly (.fixed 1) Element.isDigit) 7)
    let x : (Form.one .tagged).State UInt8 := .ok (some ([0x31], 5)) [0x32]
    let y : (Form.one .tagged).State UInt8 := .ok (some ([0x32], 7)) []
    let x' : (Form.one .plain).State UInt8 := .ok (some [0x31]) [0x32]
    let y' : (Form.one .plain).State UInt8 := .ok (some [0x32]) []
    let condition : Option (Bytes × Int) → Bytes → StateM Nat Bool := fun matched _ => do
      modify (· + 1)
      pure matched.isSome
    let condition' : Option Bytes → Bytes → StateM Nat Bool := fun matched _ => do
      modify (· + 1)
      pure matched.isSome
    p.IgnoresTags .text ∧ p.Reaches .text none x y ∧ p.erase.Reaches .text none x' y' ∧
      Match.ErasesTo id condition condition' ∧
      Match.erase <$> Match.require x condition = (Match.erase x).require condition' := by
  intro p x y x' y' condition condition'
  obtain ⟨hcombinators, hprograms⟩ := erasing_tags_commutes
  have hp : p.IgnoresTags .text :=
    ⟨fun call => congrArg Option.isSome call.units?_erase, trivial, fun call => rfl⟩
  have hy : p.Reaches .text none x y := .after ⟨{}, _, rfl⟩
  have hcondition : Match.ErasesTo id condition condition' := by
    intro matched rest
    cases matched with
    | none => rfl
    | some part => rfl
  obtain ⟨-, -, -, hrequire, -⟩ := hcombinators (m := StateM Nat) x
  exact ⟨hp, hy, ((hprograms .text p hp none x).2 y hy).1, hcondition, hrequire hcondition⟩

end PrefixMatching
