import PrefixMatching.Literal
import PrefixMatching.Program.Journal
import PrefixMatching.Scan

/-!
# Programs of matchers and combinators

A program turns a state of one form into a state of another: it matches on the rest, continues a
match with programs that start on that rest, collects parts, or chooses between branches. Programs
are indexed by the forms before and after, so only programs that fit together can be written.

`Program.run` runs a program and records its calls. The functions that continue a match are
programs again and see the arguments they were called with.
-/

namespace PrefixMatching

/-! ## Matchers -/

/-- A value that a program holds or takes from the call it runs for. -/
inductive Given (β : Type) where
  | fixed (value : β)
  | argument
deriving DecidableEq, Repr

namespace Given

variable {α β : Type}

/-- The value, where an argument is taken from the call. -/
def resolve? (call : Option (Call α)) (argument? : Call α → Option β) : Given β → Option β
  | .fixed value => some value
  | .argument => call.bind argument?

end Given

/-- A matcher at the start of a sequence. -/
inductive Matcher (α : Type) where
  | literal (pattern : Given (List α)) (extent : Extent)
  | takeWhile (p : Int → Bool)
  | takeAtLeast (min : Given Int) (p : Int → Bool)
  | takeAtMost (max : Given Int) (p : Int → Bool)
  | takeBetween (min max : Given Int) (p : Int → Bool)
  | takeExactly (n : Given Int) (p : Int → Bool)

namespace Matcher

variable {α : Type} [DecidableEq α]

/-- Runs a matcher; one that lacks its argument fails. -/
def trial (R : Reading α) (call : Option (Call α)) (matcher : Matcher α) (s : List α) : Trial α :=
  match matcher with
  | .literal pattern extent =>
    match pattern.resolve? call Call.units? with
    | none => Failable.failed
    | some pattern => .unasked (R.literal pattern extent s)
  | .takeWhile p => R.takeWhile p s
  | .takeAtLeast min p =>
    match min.resolve? call Call.tag? with
    | none => Failable.failed
    | some min => R.takeAtLeast min p s
  | .takeAtMost max p =>
    match max.resolve? call Call.tag? with
    | none => Failable.failed
    | some max => R.takeAtMost max p s
  | .takeBetween min max p =>
    match min.resolve? call Call.tag?, max.resolve? call Call.tag? with
    | some min, some max => R.takeBetween min max p s
    | _, _ => Failable.failed
  | .takeExactly n p =>
    match n.resolve? call Call.tag? with
    | none => Failable.failed
    | some n => R.takeExactly n p s

end Matcher

/-! ## Programs -/

/-- A program from states of one form to states of another. -/
inductive Program (α : Type) : Form → Form → Type where
  /-- Changes nothing. -/
  | done {e : Form} : Program α e e
  /-- Runs one program after another. -/
  | seq {e f g : Form} (first : Program α e f) (second : Program α f g) : Program α e g
  /-- Forgets the state for a given one. -/
  | become {e f : Form} (state : f.State α) : Program α e f
  /-- Makes the matched part of the call the matched part. -/
  | recall : Program α (.one .plain) (.one .plain)
  /-- Runs a matcher on the rest. -/
  | read {k : Kind} (matcher : Matcher α) : Program α (.one k) (.one .plain)
  /-- Runs a matcher on the rest and tags its match. -/
  | readTagged {k : Kind} (matcher : Matcher α) (tag : Int) : Program α (.one k) (.one .tagged)
  /-- Matches the first of several literals on the rest, tagged with its place. -/
  | readAny {k : Kind} (patterns : List (List α)) (extent : Extent) :
      Program α (.one k) (.one .tagged)
  /-- Continues a match. -/
  | continueWith {k : Kind} {f : Form} (body : Program α (.one .plain) f) : Program α (.one k) f
  /-- Continues a match that has a matched part. -/
  | continueMatched {k : Kind} {f : Form} (body : Program α (.one .plain) f) : Program α (.one k) f
  /-- Continues a match of which a condition holds. -/
  | continueIf {k : Kind} {f : Form} (condition : Call α → Bool)
      (body : Program α (.one .plain) f) : Program α (.one k) f
  /-- Continues a match in one of two ways. -/
  | continueEither {k : Kind} {f : Form} (condition : Call α → Bool)
      (body otherwise : Program α (.one .plain) f) : Program α (.one k) f
  /-- Continues a match of which a condition holds and keeps any other. -/
  | extendIf {k : Kind} (condition : Call α → Bool)
      (body : Program α (.one .plain) (.one k)) : Program α (.one k) (.one k)
  /-- Takes over the rest that a program leaves. -/
  | skipping {k k' : Kind} (body : Program α (.one .plain) (.one k')) :
      Program α (.one k) (.one k)
  /-- Continues a match unless that fails. -/
  | attempt {k : Kind} (body : Program α (.one .plain) (.one k)) : Program α (.one k) (.one k)
  /-- Fails a match of which a condition does not hold. -/
  | require {k : Kind} (condition : Call α → Bool) : Program α (.one k) (.one k)
  /-- Records a match. -/
  | watch {k : Kind} : Program α (.one k) (.one k)
  /-- Drops the matched part. -/
  | dropMatched {k : Kind} : Program α (.one k) (.one k)
  /-- Replaces the units of the matched part. -/
  | mapMatched {k : Kind} (f : List α → List α) : Program α (.one k) (.one k)
  /-- Replaces the rest. -/
  | mapRest {k : Kind} (f : List α → List α) : Program α (.one k) (.one k)
  /-- Tags the matched part. -/
  | tag (value : Int) : Program α (.one .plain) (.one .tagged)
  /-- Replaces the tag. -/
  | retag (f : Int → Int) : Program α (.one .tagged) (.one .tagged)
  /-- Drops the tag. -/
  | untag : Program α (.one .tagged) (.one .plain)
  /-- Begins to collect. -/
  | collect {k : Kind} : Program α (.one k) .many
  /-- Collects one more match. -/
  | step (body : Program α (.one .plain) (.one .plain)) : Program α .many .many
  /-- Collects as many matches as a count says. -/
  | iterate (count : Int) (body : Program α (.one .plain) (.one .plain)) : Program α .many .many
  /-- Takes over the rest that a program leaves, between collected matches. -/
  | skippingBetween (body : Program α (.one .plain) (.one .plain)) : Program α .many .many
  /-- Collects one more match unless that fails. -/
  | attemptStep (body : Program α (.one .plain) (.one .plain)) : Program α .many .many
  /-- Fails a collection of whose latest match a condition does not hold. -/
  | requireLatest (condition : Call α → Bool) : Program α .many .many
  /-- Records the latest match. -/
  | watchLatest : Program α .many .many
  /-- Begins a choice. -/
  | choose {k k' : Kind} : Program α (.one k) (.choice k k')
  /-- Offers a branch. -/
  | offer {k k' : Kind} (branch : Program α (.one k) (.one k')) :
      Program α (.choice k k') (.choice k k')
  /-- Ends a choice. -/
  | settle {k k' : Kind} : Program α (.choice k k') (.one k')

namespace Program

variable {α : Type} [DecidableEq α]

open Recorded (record note calling)

/-- Runs a program on a state, for the call it continues, if there is one. A branch of a choice
continues no call. -/
def run (R : Reading α) : {e f : Form} → Program α e f → Option (Call α) → e.State α →
    Recorded α (f.State α)
  | _, _, .done, _, x => pure x
  | _, _, .seq first second, call, x => do
    second.run R call (← first.run R call x)
  | _, _, .become state, _, _ => pure state
  | _, _, .recall, call, x =>
    Match.continueWith x fun _ rest => pure (.ok (call.bind Call.units?) rest)
  | _, _, .read matcher, call, x => do
    let trial := Match.onRest x (matcher.trial R call)
    note trial.asked
    pure trial.outcome
  | _, _, .readTagged matcher value, call, x => do
    let trial := Match.onRest x (matcher.trial R call)
    note trial.asked
    pure (trial.outcome.tag value)
  | _, _, .readAny patterns extent, _, x =>
    Match.retag (Match.onRest x (R.anyLiteral patterns extent)) fun index => pure (Int.ofNat index)
  | _, _, .continueWith (k := k) body, _, x =>
    Match.continueWith x (calling .body k fun call => body.run R (some call) (.start call.rest))
  | _, _, .continueMatched (k := k) body, _, x =>
    Match.continueMatched x fun matched rest =>
      calling .body k (fun call => body.run R (some call) (.start call.rest)) (some matched) rest
  | _, _, .continueIf (k := k) condition body, _, x =>
    Match.continueIf x (calling .condition k fun call => pure (condition call))
      (calling .body k fun call => body.run R (some call) (.start call.rest))
  | _, _, .continueEither (k := k) condition body otherwise, _, x =>
    Match.continueEither x (calling .condition k fun call => pure (condition call))
      (calling .body k fun call => body.run R (some call) (.start call.rest))
      (calling .otherwise k fun call => otherwise.run R (some call) (.start call.rest))
  | _, _, .extendIf (k := k) condition body, _, x =>
    Match.extendIf x (calling .condition k fun call => pure (condition call))
      (calling .body k fun call => body.run R (some call) (.start call.rest))
  | _, _, .skipping (k := k) body, _, x =>
    Match.skipping x (calling .body k fun call => body.run R (some call) (.start call.rest))
  | _, _, .attempt (k := k) body, _, x =>
    Match.attempt x (calling .body k fun call => body.run R (some call) (.start call.rest))
  | _, _, .require (k := k) condition, _, x =>
    Match.require x (calling .condition k fun call => pure (condition call))
  | _, _, .watch (k := k), _, x => Match.watch x (calling .watcher k fun _ => pure ())
  | _, _, .dropMatched, _, x => pure (Match.dropMatched x)
  | _, _, .mapMatched (k := k) f, _, x =>
    Match.mapMatched x <| k.mapUnits fun units => do
      record (.replacedUnits units)
      pure (f units)
  | _, _, .mapRest f, _, x =>
    Match.mapRest x fun rest => do
      record (.replacedUnits rest)
      pure (f rest)
  | _, _, .tag value, _, x => pure (Match.tag x value)
  | _, _, .retag f, _, x =>
    Match.retag x fun value => do
      record (.replacedTag value)
      pure (f value)
  | _, _, .untag, _, x => Match.untag x fun value => record (.released value)
  | _, _, .collect (k := .plain), _, x => pure (Collector.ofMatch x)
  | _, _, .collect (k := .tagged), _, x => do
    pure (Collector.ofMatch (← Match.untag x fun value => record (.released value)))
  | _, _, .step body, _, x =>
    Collector.step x (calling .body .plain fun call =>
      body.run R (some call) (.start call.rest))
  | _, _, .iterate count body, _, x =>
    Collector.iterate x count (calling .body .plain fun call =>
      body.run R (some call) (.start call.rest))
  | _, _, .skippingBetween body, _, x =>
    Collector.skipping x (calling .body .plain fun call =>
      body.run R (some call) (.start call.rest))
  | _, _, .attemptStep body, _, x =>
    Collector.attempt x (calling .body .plain fun call =>
      body.run R (some call) (.start call.rest))
  | _, _, .requireLatest condition, _, x =>
    Collector.require x (calling .condition .plain fun call => pure (condition call))
  | _, _, .watchLatest, _, x => Collector.watch x (calling .watcher .plain fun _ => pure ())
  | _, _, .choose, _, x => pure (Choice.between x)
  | _, _, .offer (k := k) branch, _, x =>
    Choice.offer x fun start => do
      record (.offered k start)
      branch.run R none start
  | _, _, .settle, _, x => pure x.found

end Program
end PrefixMatching
