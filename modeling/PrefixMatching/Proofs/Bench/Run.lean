import Mathlib.Algebra.BigOperators.Group.List.Basic
import Mathlib.Algebra.Ring.Int.Defs
import Mathlib.Data.List.Forall2
import PrefixMatching.Bench.Run
import PrefixMatching.Proofs.Bench.Scan

/-!
# What a run logs

What a run has to log is said byte by byte (`Plan.account`): for each input, in order, that its file
cannot be opened or what one scan of it came to, and the totals at the end. A run with fixed files
is then read as one that keeps its log and asks a clock for the time (`Host.recording`). The counts
of a file that is scanned again and again are those of one scan (`rescanning_eq`), so the run logs
its account (`Plan.run_run`), which does not depend on the number of repetitions, but for the times
and the message that names the number (`Plan.account_sameButTimes`).

Nothing handles a failure to read from a path that could be opened. A run ends at the first one,
after the account of the inputs before it (`Plan.run_run_failing`).
-/

namespace PrefixMatching
namespace Bench

variable {n : Type → Type} [Monad n] {files : Bytes → Except ReadFailure (Option Bytes)}
  {clock : n Int} {logged : List Bytes}

/-! ## The account of a run -/

/-- A number as it is usually written. -/
def numeral {τ : Type} [ToString τ] (number : τ) : Bytes := ascii (toString number)

namespace Plan

variable (plan : Plan) (files : Bytes → Except ReadFailure (Option Bytes)) (clock : n Int)

/-- The path of an input: in the folder, unless the name of its file starts with a slash. A slash
goes between the two if the folder has a name that does not end with one. -/
def pathOf (input : Input) : Bytes :=
  if input.file.head? = some 0x2F then input.file
  else if plan.folder = [] ∨ plan.folder.getLast? = some 0x2F then plan.folder ++ input.file
  else plan.folder ++ [0x2F] ++ input.file

/-- Whether the path of an input cannot be opened, or can be opened and read from. -/
def IsAnswered (input : Input) : Prop := ∃ answer, files (plan.pathOf input) = .ok answer

/-- The content of an input, if it can be read. -/
def content? (input : Input) : Option Bytes := (files (plan.pathOf input)).toOption.join

/-- Whether an input can be read. -/
def isReadable (input : Input) : Bool := (plan.content? files input).isSome

/-- The number of lines of an input that can be read. -/
def lines? (input : Input) : Option Nat :=
  (plan.content? files input).map fun content => (Splitter.lines.pieces content).length

/-- The totals of inputs. -/
def totalsOf (inputs : List Input) : Totals where
  files := (inputs.filter (plan.isReadable files)).length
  failedOpens := (inputs.filter fun input => !plan.isReadable files input).length
  lines := (inputs.filterMap (plan.lines? files)).sum

/-- What is logged with details only. -/
def detailed (messages : List Bytes) : List Bytes := if plan.details then messages else []

/-- What is logged about the plan. -/
def intentions : List Bytes :=
  [ascii "base_folder: " ++ plan.folder, ascii "config_file: " ++ plan.configFile,
    ascii "repeat: " ++ numeral plan.repetitions, ascii "message: " ++ plan.message,
    ascii "number of inputs: " ++ numeral plan.inputs.length]

/-- What stands before the messages about an input. Its place is counted in 64 bits. -/
def mark (index : Nat) : Bytes :=
  if plan.message = [] then []
  else
    ascii "[" ++ plan.message ++ ascii " " ++ numeral ((index + 1) % 2 ^ 64) ++ ascii "/" ++
      numeral plan.inputs.length ++ ascii "] "

/-- What is logged about the scans of a file, the last of which took so long together. -/
def summary (index : Nat) (scanner : Scanner) (content : Bytes) (time : Int) : Bytes :=
  let lines := (Splitter.lines.pieces content).length
  plan.mark index ++ ascii "Time: " ++ numeral time ++ ascii " ms, lines: " ++
    numeral lines ++ ascii ", accepted: " ++ numeral (scanner.accepted content).length ++
    ascii ", rejected: " ++ numeral (scanner.rejected content).length ++ ascii ", line/ms: " ++
    (plan.timing lines time).linesPerMillisecond

/-- What is logged about an input whose repeated scans take so long. -/
def accountOf (index : Nat) (input : Input) (time : Int) : List Bytes :=
  match plan.content? files input with
  | none => [plan.mark index ++ ascii "File read error: " ++ plan.pathOf input]
  | some content =>
    (plan.mark index ++ ascii "Scanning file: " ++ input.file) ::
      plan.detailed ((input.scanner.rejected content).map input.scanner.complaint ++
        [plan.summary index input.scanner content time])

/-- What is logged about inputs from an index on. -/
def accounts (index : Nat) (inputs : List Input) (times : List Int) : List Bytes :=
  ((inputs.zip times).zipIdx index).flatMap fun ((input, time), index) =>
    plan.accountOf files index input time

/-- What is logged about all inputs together. -/
def sums (time : Int) : Bytes :=
  let totals := plan.totalsOf files plan.inputs
  ascii "Files: " ++ numeral totals.files ++ ascii ", failed file opens: " ++
    numeral totals.failedOpens ++ ascii ", lines: " ++ numeral totals.lines ++
    ascii ", benchmark time: " ++ numeral time ++ ascii " ms"

/-- What is logged in all. -/
def account (times : List Int) : List Bytes :=
  plan.detailed plan.intentions ++ plan.accounts files 0 plan.inputs times ++
    plan.detailed [plan.sums files times.sum]

/-- The milliseconds that an input takes by the clock, which is read around the repeated scans. -/
def timeOf (input : Input) : n Int :=
  match plan.content? files input with
  | none => pure 0
  | some _ => do
    let begun ← clock
    let ended ← clock
    pure ((ended - begun).tdiv 1000000)

end Plan

/-! ## Messages as bytes -/

theorem decimal_eq_numeral (number : Nat) : decimal number = numeral number := by
  have hdigits : (toString number).toList = Nat.toDigits 10 number := String.toList_ofList
  rw [decimal, numeral, ascii, hdigits]

theorem signedDecimal_eq_numeral (number : Int) : signedDecimal number = numeral number := by
  cases number with
  | ofNat number => exact decimal_eq_numeral number
  | negSucc number =>
    have hminus : (toString (Int.negSucc number)).toList =
        "-".toList ++ (toString (number + 1)).toList := String.toList_append
    have hnegative : signedDecimal (Int.negSucc number) =
        ascii "-" ++ decimal (number + 1) := if_pos (Int.negSucc_lt_zero number)
    rw [hnegative, decimal_eq_numeral, numeral, numeral, ascii, ascii, ascii, hminus,
      List.map_append]

namespace Plan

variable (plan : Plan)

theorem joinPath_eq_pathOf (input : Input) :
    joinPath plan.folder input.file = plan.pathOf input := by
  have hslash : byte '/' = 0x2F := by decide
  have hascii : ascii "/" = [0x2F] := by decide
  unfold joinPath pathOf startsAtRoot
  rw [hslash, hascii]
  by_cases hroot : input.file.head? = some 0x2F
  · simp [hroot]
  · by_cases hfolder : plan.folder = []
    · simp [hroot, hfolder]
    · by_cases hlast : plan.folder.getLast? = some 0x2F <;> simp [hroot, hfolder, hlast]

theorem captionOf_eq_mark (index : Nat) : plan.captionOf index = plan.mark index := by
  unfold captionOf caption mark ordinal
  simp only [List.isEmpty_iff, decimal_eq_numeral]
  rfl

theorem map_text_inDetail (entries : List Entry) :
    (plan.inDetail entries).map Entry.text = plan.detailed (entries.map Entry.text) := by
  unfold inDetail detailed
  split
  · rfl
  · rfl

theorem map_text_heading : plan.heading.map Entry.text = plan.detailed plan.intentions := by
  rw [heading, map_text_inDetail]
  simp [Entry.text, decimal_eq_numeral, intentions]

end Plan

/-! ## Sums over inputs -/

namespace Totals

theorem add_def (a b : Totals) :
    a + b = ⟨a.files + b.files, a.failedOpens + b.failedOpens, a.lines + b.lines⟩ := rfl

theorem add_assoc (a b c : Totals) : a + b + c = a + (b + c) := by
  simp only [add_def, Nat.add_assoc]

theorem zero_add (a : Totals) : {} + a = a := by
  simp only [add_def, Nat.zero_add]

end Totals

namespace Plan

variable (plan : Plan) (files : Bytes → Except ReadFailure (Option Bytes)) (clock : n Int)

theorem totalsOf_cons (input : Input) (inputs : List Input) :
    plan.totalsOf files (input :: inputs) =
      plan.totalsOf files [input] + plan.totalsOf files inputs := by
  cases hcontent : plan.content? files input with
  | none =>
    simp [totalsOf, Totals.add_def, isReadable, lines?, hcontent, Nat.add_comm]
  | some content =>
    simp [totalsOf, Totals.add_def, isReadable, lines?, hcontent, Nat.add_comm]

/-- Every input is counted, as a file or as a failed open. -/
theorem files_add_failedOpens (inputs : List Input) :
    (plan.totalsOf files inputs).files + (plan.totalsOf files inputs).failedOpens =
      inputs.length := by
  induction inputs with
  | nil => rfl
  | cons input inputs ih =>
    simp only [totalsOf, List.filter_cons, List.length_cons] at ih ⊢
    cases plan.isReadable files input with
    | true =>
      simp only [Bool.not_true, Bool.false_eq_true, if_true, if_false, List.length_cons]
      omega
    | false =>
      simp only [Bool.not_false, Bool.false_eq_true, if_true, if_false, List.length_cons]
      omega

/-- No open failed exactly if every input can be read. -/
theorem failedOpens_eq_zero (inputs : List Input) :
    decide ((plan.totalsOf files inputs).failedOpens = 0) =
      inputs.all (plan.isReadable files) := by
  rw [Bool.eq_iff_iff]
  simp [totalsOf]

/-- The order of the inputs does not matter. -/
theorem totalsOf_perm {inputs inputs' : List Input} (h : inputs'.Perm inputs) :
    plan.totalsOf files inputs' = plan.totalsOf files inputs := by
  simp only [totalsOf, (h.filter _).length_eq, (h.filterMap _).sum_eq]

end Plan

/-! ## What is recorded -/

section Recording

variable [LawfulMonad n]

/-- What comes after something that logs messages and succeeds goes on with its log. -/
theorem run_bind_of_run {α β : Type} {x : Recorded n α} {a : α} {logged' : List Bytes}
    (h : x.run.run logged = pure (.ok a, logged')) (f : α → Recorded n β) :
    (x >>= f).run.run logged = (f a).run.run logged' := by
  rw [ExceptT.run_bind, StateT.run_bind, h, pure_bind]

/-- The same where the result and the log depend on the time that is read. -/
theorem run_bind_of_run_timed {α β τ : Type} {x : Recorded n α} {read : n τ} {a : τ → α}
    {logged' : τ → List Bytes}
    (h : x.run.run logged = (do let time ← read; pure (.ok (a time), logged' time)))
    (f : α → Recorded n β) :
    (x >>= f).run.run logged = (do let time ← read; (f (a time)).run.run (logged' time)) := by
  rw [ExceptT.run_bind, StateT.run_bind, h, bind_assoc]
  simp only [pure_bind]

/-- What comes after a failure is not run. -/
theorem run_bind_of_run_error {α β : Type} {x : Recorded n α} {failure : ReadFailure}
    {logged' : List Bytes} (h : x.run.run logged = pure (.error failure, logged'))
    (f : α → Recorded n β) :
    (x >>= f).run.run logged = pure (.error failure, logged') := by
  rw [ExceptT.run_bind, StateT.run_bind, h, pure_bind]
  rfl

theorem run_clock_bind {β : Type} (f : Int → Recorded n β) :
    ((Host.recording files clock).clock >>= f).run.run logged = (do
      let time ← clock
      (f time).run.run logged) := by
  simp [ExceptT.run_bind, Host.recording]

theorem run_log (message : Bytes) :
    ((Host.recording files clock).log message).run.run logged =
      pure (.ok (), logged ++ [message]) := by
  simp [Host.recording]

theorem run_forM_log (messages : List Bytes) :
    (forM messages (Host.recording files clock).log).run.run logged =
      pure (.ok (), logged ++ messages) := by
  induction messages generalizing logged with
  | nil => simp
  | cons message messages ih =>
    rw [List.forM_cons, run_bind_of_run (run_log message), ih, List.append_assoc]
    rfl

theorem run_logEntries (entries : List Entry) :
    ((Host.recording files clock).logEntries entries).run.run logged =
      pure (.ok (), logged ++ entries.map Entry.text) := by
  have hmap : (Host.recording files clock).logEntries entries =
      forM (entries.map Entry.text) (Host.recording files clock).log := by
    rw [List.forM_map, Host.logEntries, List.forM_eq_forM]
  rw [hmap, run_forM_log]

/-- A scan logs its complaints, with details, and comes to the counts of its tally. -/
theorem run_scan (details : Bool) (scanner : Scanner) (content : Bytes) :
    (scan (Host.recording files clock).log details scanner content).run.run logged =
      pure (.ok (Tally.ofContent scanner content).stats,
        logged ++ if details then (scanner.rejected content).map scanner.complaint else []) := by
  cases details with
  | false => simp [scan_false_eq]
  | true =>
    rw [scan_true_eq, List.forM_eq_forM, run_bind_of_run (run_forM_log _)]
    rfl

end Recording

/-- However often a file is scanned again, the counts are those of one scan. -/
theorem rescanning_eq {m : Type → Type} [Monad m] [LawfulMonad m] (host : Host m)
    (scanner : Scanner) (content : Bytes) (repetitions : Nat) :
    rescanning host scanner content (Tally.ofContent scanner content).stats repetitions =
      pure (Tally.ofContent scanner content).stats := by
  induction repetitions with
  | zero => rfl
  | succ repetitions ih => rw [rescanning, scan_false_eq, pure_bind, ih]

/-! ## The run of a plan -/

namespace Plan

variable (plan : Plan) (files : Bytes → Except ReadFailure (Option Bytes)) (clock : n Int)

theorem detailed_append (messages messages' : List Bytes) :
    plan.detailed (messages ++ messages') = plan.detailed messages ++ plan.detailed messages' := by
  unfold detailed
  split
  · rfl
  · rfl

theorem accounts_cons (index : Nat) (input : Input) (inputs : List Input) (time : Int)
    (times : List Int) :
    plan.accounts files index (input :: inputs) (time :: times) =
      plan.accountOf files index input time ++ plan.accounts files (index + 1) inputs times := rfl

theorem map_text_closing (index : Nat) (scanner : Scanner) (content : Bytes) (time : Int) :
    let stats := (Tally.ofContent scanner content).stats
    (plan.closing index stats (plan.timing stats.lines time)).map Entry.text =
      plan.detailed [plan.summary index scanner content time] := by
  intro stats
  obtain ⟨hlines, haccepted, hrejected, -⟩ := Tally.isOfPieces_ofContent scanner content
  rw [closing, map_text_inDetail]
  simp [Entry.text, captionOf_eq_mark, decimal_eq_numeral, timing, signedDecimal_eq_numeral,
    summary, Scanner.accepted, Scanner.rejected, stats, hlines, haccepted, hrejected]

/-- What an input that cannot be opened adds to the totals. -/
theorem totalsOf_singleton_none {input : Input} (h : plan.content? files input = none) :
    plan.totalsOf files [input] = .unopened := by
  simp [totalsOf, isReadable, lines?, h, Totals.unopened]

/-- What an input that can be read adds to the totals. -/
theorem totalsOf_singleton_some {input : Input} {content : Bytes}
    (h : plan.content? files input = some content) :
    plan.totalsOf files [input] = .read (Tally.ofContent input.scanner content).stats := by
  have hlines := (Tally.isOfPieces_ofContent input.scanner content).lines
  simp [totalsOf, isReadable, lines?, h, Totals.read, hlines]

theorem content?_of_answer {input : Input} {answer : Option Bytes}
    (h : files (plan.pathOf input) = .ok answer) : plan.content? files input = answer := by
  rw [content?, h]
  rfl

section Recording

variable [LawfulMonad n]

/-- One input is logged and counted. -/
theorem run_scanInput (index : Nat) {input : Input} (hanswered : plan.IsAnswered files input) :
    (plan.scanInput (.recording files clock) index input).run.run logged = (do
      let time ← plan.timeOf files clock input
      pure (.ok (plan.totalsOf files [input], time),
        logged ++ plan.accountOf files index input time)) := by
  obtain ⟨answer, hanswer⟩ := hanswered
  have hread : ((Host.recording files clock).content? (plan.pathOf input)).run.run logged =
      pure (.ok answer, logged) := by
    simp [Host.recording, hanswer]
  have hcontent := plan.content?_of_answer files hanswer
  rw [scanInput, joinPath_eq_pathOf, run_bind_of_run hread]
  cases answer with
  | none =>
    dsimp only
    rw [run_bind_of_run (run_logEntries _), timeOf, hcontent, pure_bind, accountOf, hcontent,
      totalsOf_singleton_none _ _ hcontent]
    simp [unopened, Entry.text, captionOf_eq_mark, joinPath_eq_pathOf]
  | some content =>
    dsimp only
    rw [run_bind_of_run (run_logEntries _), run_bind_of_run (run_scan _ _ _), run_clock_bind,
      timeOf, hcontent, bind_assoc]
    refine bind_congr fun begun => ?_
    rw [rescanning_eq, pure_bind, run_clock_bind, bind_assoc]
    refine bind_congr fun ended => ?_
    rw [run_bind_of_run (run_logEntries _), map_text_closing, pure_bind, accountOf, hcontent,
      totalsOf_singleton_some _ _ hcontent]
    dsimp only
    rw [detailed_append]
    simp [Entry.text, captionOf_eq_mark, detailed]

/-- An input whose path can be opened but not read from ends the run. -/
theorem run_scanInput_failing (index : Nat) {input : Input} {failure : ReadFailure}
    (hfails : files (plan.pathOf input) = .error failure) :
    (plan.scanInput (.recording files clock) index input).run.run logged =
      pure (.error failure, logged) := by
  have hread : ((Host.recording files clock).content? (plan.pathOf input)).run.run logged =
      pure (.error failure, logged) := by
    simp [Host.recording, hfails]
  rw [scanInput, joinPath_eq_pathOf, run_bind_of_run_error hread]

/-- Inputs whose paths are answered are logged one after the other, and what comes after them goes on
with the sums of their shares and times. -/
theorem run_scanInputs_append (index : Nat) (totals : Totals) (time : Int) {before : List Input}
    (after : List Input) (hanswered : ∀ input ∈ before, plan.IsAnswered files input) :
    (plan.scanInputs (.recording files clock) index totals time (before ++ after)).run.run logged =
      (do
        let times ← before.mapM (plan.timeOf files clock)
        (plan.scanInputs (.recording files clock) (index + before.length)
          (totals + plan.totalsOf files before) (time + times.sum) after).run.run
            (logged ++ plan.accounts files index before times)) := by
  -- the sums so far and the log so far are what the earlier inputs leave behind
  induction before generalizing index totals time logged with
  | nil =>
    have hnone : totals + plan.totalsOf files [] = totals := rfl
    simp [accounts, hnone]
  | cons input before ih =>
    obtain ⟨hinput, hbefore⟩ := List.forall_mem_cons.mp hanswered
    rw [List.cons_append, scanInputs,
      run_bind_of_run_timed (plan.run_scanInput files clock index hinput), List.mapM_cons,
      bind_assoc]
    refine bind_congr fun milliseconds => ?_
    dsimp only
    rw [ih _ _ _ hbefore, bind_assoc]
    refine bind_congr fun times => ?_
    rw [pure_bind, accounts_cons, plan.totalsOf_cons files input before, ← Totals.add_assoc,
      List.sum_cons, ← Int.add_assoc, List.append_assoc, List.length_cons, Nat.add_right_comm,
      Nat.add_assoc]

/-- The inputs are logged one after the other, and their shares and times are summed up. -/
theorem run_scanInputs (index : Nat) (totals : Totals) (time : Int) {inputs : List Input}
    (hanswered : ∀ input ∈ inputs, plan.IsAnswered files input) :
    (plan.scanInputs (.recording files clock) index totals time inputs).run.run logged = (do
      let times ← inputs.mapM (plan.timeOf files clock)
      pure (.ok (totals + plan.totalsOf files inputs, time + times.sum),
        logged ++ plan.accounts files index inputs times)) := by
  have hnothing : (plan.scanInputs (.recording files clock) index totals time
      (inputs ++ [])).run.run logged = _ :=
    plan.run_scanInputs_append files clock index totals time [] hanswered
  rw [List.append_nil] at hnothing
  exact hnothing

/-- The inputs after one whose path can be opened but not read from are not scanned. -/
theorem run_scanInputs_failing (index : Nat) (totals : Totals) (time : Int)
    {before after : List Input} {input : Input} {failure : ReadFailure}
    (hanswered : ∀ input ∈ before, plan.IsAnswered files input)
    (hfails : files (plan.pathOf input) = .error failure) :
    (plan.scanInputs (.recording files clock) index totals time
        (before ++ input :: after)).run.run logged = (do
      let times ← before.mapM (plan.timeOf files clock)
      pure (.error failure, logged ++ plan.accounts files index before times)) := by
  rw [plan.run_scanInputs_append files clock index totals time (input :: after) hanswered]
  refine bind_congr fun times => ?_
  rw [scanInputs, run_bind_of_run_error (plan.run_scanInput_failing files clock _ hfails)]

/-- A run gives its account and tells whether every input could be read. -/
theorem run_run (hanswered : ∀ input ∈ plan.inputs, plan.IsAnswered files input) :
    (plan.run (.recording files clock)).run.run logged = (do
      let times ← plan.inputs.mapM (plan.timeOf files clock)
      pure (.ok (plan.inputs.all (plan.isReadable files)),
        logged ++ plan.account files times)) := by
  rw [run, run_bind_of_run (run_logEntries _), map_text_heading,
    run_bind_of_run_timed (plan.run_scanInputs files clock 0 {} 0 hanswered)]
  refine bind_congr fun times => ?_
  dsimp only
  rw [run_bind_of_run (run_logEntries _), map_text_inDetail, Totals.zero_add, Int.zero_add,
    failedOpens_eq_zero]
  simp [account, sums, Entry.text, decimal_eq_numeral, signedDecimal_eq_numeral]

/-- A run ends at the first input whose path can be opened but not read from, after the account of
the inputs before it. -/
theorem run_run_failing {before after : List Input} {input : Input} {failure : ReadFailure}
    (hinputs : plan.inputs = before ++ input :: after)
    (hanswered : ∀ input ∈ before, plan.IsAnswered files input)
    (hfails : files (plan.pathOf input) = .error failure) :
    (plan.run (.recording files clock)).run.run logged = (do
      let times ← before.mapM (plan.timeOf files clock)
      pure (.error failure,
        logged ++ (plan.detailed plan.intentions ++ plan.accounts files 0 before times))) := by
  rw [run, run_bind_of_run (run_logEntries _), map_text_heading, hinputs, ExceptT.run_bind,
    StateT.run_bind, plan.run_scanInputs_failing files clock 0 {} 0 hanswered hfails, bind_assoc]
  refine bind_congr fun times => ?_
  rw [pure_bind, List.append_assoc]
  rfl

end Recording

/-! ## Repetitions and times -/

/-- Whether two messages are the same but for the number of repetitions and measured times. -/
inductive SameButTimes : Bytes → Bytes → Prop where
  | same (message : Bytes) : SameButTimes message message
  | repetitions (number number' : Nat) :
    SameButTimes (ascii "repeat: " ++ numeral number) (ascii "repeat: " ++ numeral number')
  | summary (mark counts rate rate' : Bytes) (time time' : Int) :
    SameButTimes
      (mark ++ ascii "Time: " ++ numeral time ++ ascii " ms, lines: " ++ counts ++
        ascii ", line/ms: " ++ rate)
      (mark ++ ascii "Time: " ++ numeral time' ++ ascii " ms, lines: " ++ counts ++
        ascii ", line/ms: " ++ rate')
  | sums (counts : Bytes) (time time' : Int) :
    SameButTimes (counts ++ ascii ", benchmark time: " ++ numeral time ++ ascii " ms")
      (counts ++ ascii ", benchmark time: " ++ numeral time' ++ ascii " ms")

theorem forall₂_same (messages : List Bytes) : List.Forall₂ SameButTimes messages messages :=
  List.forall₂_same.mpr fun message _ => .same message

variable (repetitions : Nat)

theorem detailed_sameButTimes {messages messages' : List Bytes}
    (h : List.Forall₂ SameButTimes messages messages') :
    List.Forall₂ SameButTimes (plan.detailed messages)
      (({ plan with repetitions := repetitions } : Plan).detailed messages') := by
  unfold detailed
  dsimp only
  split
  · exact h
  · exact .nil

theorem intentions_sameButTimes :
    List.Forall₂ SameButTimes plan.intentions
      ({ plan with repetitions := repetitions } : Plan).intentions :=
  .cons (.same _) (.cons (.same _) (.cons (.repetitions _ _) (forall₂_same _)))

theorem summary_sameButTimes (index : Nat) (scanner : Scanner) (content : Bytes)
    (time time' : Int) :
    SameButTimes (plan.summary index scanner content time)
      (({ plan with repetitions := repetitions } : Plan).summary index scanner content time') := by
  have hcounts := SameButTimes.summary (plan.mark index)
    (numeral (Splitter.lines.pieces content).length ++ ascii ", accepted: " ++
      numeral (scanner.accepted content).length ++ ascii ", rejected: " ++
      numeral (scanner.rejected content).length)
  simp only [summary, List.append_assoc] at hcounts ⊢
  exact hcounts _ _ time time'

theorem accountOf_sameButTimes (index : Nat) (input : Input) (time time' : Int) :
    List.Forall₂ SameButTimes (plan.accountOf files index input time)
      (({ plan with repetitions := repetitions } : Plan).accountOf files index input time') := by
  have hread : ({ plan with repetitions := repetitions } : Plan).content? files input =
      plan.content? files input := rfl
  unfold accountOf
  rw [hread]
  cases plan.content? files input with
  | none => exact forall₂_same _
  | some content =>
    refine .cons (.same _) (plan.detailed_sameButTimes repetitions ?_)
    exact List.rel_append (forall₂_same _)
      (.cons (plan.summary_sameButTimes repetitions index input.scanner content time time') .nil)

theorem accounts_sameButTimes (index : Nat) {inputs : List Input} {times times' : List Int}
    (htimes : times.length = inputs.length) (htimes' : times'.length = inputs.length) :
    List.Forall₂ SameButTimes (plan.accounts files index inputs times)
      (({ plan with repetitions := repetitions } : Plan).accounts files index inputs times') := by
  induction inputs generalizing index times times' with
  | nil => simp [accounts]
  | cons input inputs ih =>
    obtain ⟨time, times, rfl⟩ := List.exists_cons_of_length_eq_add_one htimes
    obtain ⟨time', times', rfl⟩ := List.exists_cons_of_length_eq_add_one htimes'
    rw [accounts_cons, accounts_cons]
    exact List.rel_append (plan.accountOf_sameButTimes files repetitions index input time time')
      (ih (index + 1) (Nat.succ.inj htimes) (Nat.succ.inj htimes'))

/-- Whatever the number of repetitions and the times are, the account is the same otherwise. -/
theorem account_sameButTimes {times times' : List Int}
    (htimes : times.length = plan.inputs.length) (htimes' : times'.length = plan.inputs.length) :
    List.Forall₂ SameButTimes (plan.account files times)
      (({ plan with repetitions := repetitions } : Plan).account files times') := by
  have hsums (time time' : Int) : SameButTimes (plan.sums files time)
      (({ plan with repetitions := repetitions } : Plan).sums files time') := by
    have hcounts := SameButTimes.sums
      (ascii "Files: " ++ numeral (plan.totalsOf files plan.inputs).files ++
        ascii ", failed file opens: " ++
        numeral (plan.totalsOf files plan.inputs).failedOpens ++
        ascii ", lines: " ++ numeral (plan.totalsOf files plan.inputs).lines)
    exact hcounts time time'
  refine List.rel_append (List.rel_append ?_ ?_) ?_
  · exact plan.detailed_sameButTimes repetitions (plan.intentions_sameButTimes repetitions)
  · exact plan.accounts_sameButTimes files repetitions 0 htimes htimes'
  · exact plan.detailed_sameButTimes repetitions (.cons (hsums _ _) .nil)

end Plan

/-- A run accounts for every input, and its outcome depends neither on the number of repetitions nor
on the clock, as long as there is no path that can be opened but not read from.

* It returns whether every input can be read, and logs `Plan.account`: for each input, in order, a
  read error or, with details, a complaint about each piece that is rejected and the counts of one
  scan; then the totals.
* It ends at the first path that can be opened but not read from, after the account of the inputs
  before it, with neither a result nor totals.
* One scan logs its complaints and comes to the counts that are in the account.
* The totals count every input, as a file or as a failed open.
* With another number of repetitions and other times the messages are the same, but for the message
  that names the repetitions and for the times.
* The totals are the same for every order of the inputs. -/
theorem run_accounts_for_inputs [LawfulMonad n]
    (files : Bytes → Except ReadFailure (Option Bytes)) (clock : n Int) (plan : Plan) :
    ((∀ input ∈ plan.inputs, plan.IsAnswered files input) → ∀ logged,
      (plan.run (.recording files clock)).run.run logged = (do
        let times ← plan.inputs.mapM (plan.timeOf files clock)
        pure (.ok (plan.inputs.all (plan.isReadable files)),
          logged ++ plan.account files times))) ∧
    (∀ before input after failure, plan.inputs = before ++ input :: after →
      (∀ earlier ∈ before, plan.IsAnswered files earlier) →
      files (plan.pathOf input) = .error failure → ∀ logged,
      (plan.run (.recording files clock)).run.run logged = (do
        let times ← before.mapM (plan.timeOf files clock)
        pure (.error failure,
          logged ++ (plan.detailed plan.intentions ++ plan.accounts files 0 before times)))) ∧
    (∀ details scanner content logged,
      let stats := (Tally.ofContent scanner content).stats
      (scan (Host.recording files clock).log details scanner content).run.run logged =
        pure (.ok stats,
          logged ++ if details then (scanner.rejected content).map scanner.complaint else []) ∧
      stats.lines = (Splitter.lines.pieces content).length ∧
      stats.accepted = (scanner.accepted content).length ∧
      stats.rejected = (scanner.rejected content).length) ∧
    (plan.totalsOf files plan.inputs).files + (plan.totalsOf files plan.inputs).failedOpens =
      plan.inputs.length ∧
    (∀ repetitions times times', times.length = plan.inputs.length →
      times'.length = plan.inputs.length →
      List.Forall₂ Plan.SameButTimes (plan.account files times)
        (({ plan with repetitions := repetitions } : Plan).account files times')) ∧
    ∀ inputs time, inputs.Perm plan.inputs →
      ({ plan with inputs := inputs } : Plan).sums files time = plan.sums files time := by
  refine ⟨fun hanswered logged => plan.run_run files clock hanswered,
    fun before input after failure hinputs hanswered hfails logged =>
      plan.run_run_failing files clock hinputs hanswered hfails,
    fun details scanner content logged => ?_, plan.files_add_failedOpens files plan.inputs,
    fun repetitions times times' => plan.account_sameButTimes files repetitions,
    fun inputs time hperm => ?_⟩
  · obtain ⟨hlines, haccepted, hrejected, -⟩ := Tally.isOfPieces_ofContent scanner content
    exact ⟨run_scan details scanner content, hlines, haccepted, hrejected⟩
  · have htotals : ({ plan with inputs := inputs } : Plan).totalsOf files inputs =
        plan.totalsOf files plan.inputs := plan.totalsOf_perm files hperm
    simp only [Plan.sums, htotals]

/-- A file with values before one that is missing, with a clock that goes on by seven milliseconds
each time it is read, and a folder between the two. -/
theorem run_accounts_for_inputs_missing :
    let files := (Files.inFolder (ascii "data") [(ascii "a", ascii "1 x")]).read
    let clock : StateM Int Int := modifyGet fun time => (time, time + 7000000)
    let first : Input := ⟨ascii "a", .value⟩
    let last : Input := ⟨ascii "b", .header⟩
    let folder : Input := ⟨[], .header⟩
    let plan : Plan :=
      { folder := ascii "data"
        configFile := ascii "bench.json"
        repetitions := 2
        details := true
        message := []
        inputs := [first, last] }
    let ended := { plan with inputs := [first, folder, last] }
    let intentions (inputs : Bytes) :=
      [ascii "base_folder: data", ascii "config_file: bench.json", ascii "repeat: 2",
        ascii "message: ", ascii "number of inputs: " ++ inputs]
    let scanned :=
      [ascii "Scanning file: a", ascii "Rejected value: x",
        ascii "Time: 7 ms, lines: 1, accepted: 1, rejected: 1, line/ms: 0.285714"]
    (∀ input ∈ plan.inputs, plan.IsAnswered files input) ∧
      (((plan.run (.recording files clock)).run.run []).run 0).1 =
        (.ok false, intentions (ascii "2") ++ scanned ++
          [ascii "File read error: data/b",
            ascii "Files: 1, failed file opens: 1, lines: 1, benchmark time: 7 ms"]) ∧
      (((ended.run (.recording files clock)).run.run []).run 0).1 =
        (.error ⟨ascii "data/"⟩, intentions (ascii "3") ++ scanned) ∧
      List.Forall₂ Plan.SameButTimes (plan.account files [7, 0])
        (({ plan with repetitions := 0 } : Plan).account files [3, 0]) ∧
      ({ plan with inputs := [last, first] } : Plan).sums files 7 = plan.sums files 7 := by
  intro files clock first last folder plan ended intentions scanned
  have hfirst : files (ascii "data/a") = .ok (some (ascii "1 x")) := by rfl
  have hlast : files (ascii "data/b") = .ok none := by rfl
  have hanswered : ∀ input ∈ plan.inputs, plan.IsAnswered files input := by
    intro input hinput
    rcases List.mem_pair.mp hinput with rfl | rfl
    · exact ⟨_, hfirst⟩
    · exact ⟨_, hlast⟩
  obtain ⟨hrun, -, -, -, hrepeated, horder⟩ := run_accounts_for_inputs files clock plan
  obtain ⟨-, hfailing, -⟩ := run_accounts_for_inputs files clock ended
  refine ⟨hanswered, ?_, ?_, hrepeated 0 [7, 0] [3, 0] rfl rfl, horder _ 7 (.swap _ _ [])⟩
  · rw [hrun hanswered]
    have haccount : plan.account files [7, 0] = intentions (ascii "2") ++ scanned ++
        [ascii "File read error: data/b",
          ascii "Files: 1, failed file opens: 1, lines: 1, benchmark time: 7 ms"] := by
      decide +kernel
    rw [← haccount]
    rfl
  · rw [hfailing [first] folder [last] _ rfl (fun _ h => List.mem_singleton.mp h ▸ ⟨_, hfirst⟩) rfl]
    have haccount : ended.detailed ended.intentions ++ ended.accounts files 0 [first] [7] =
        intentions (ascii "3") ++ scanned := by
      decide +kernel
    rw [← haccount]
    rfl

/-- An input that is the folder of the files ends the run. It is neither accounted for nor counted,
and nothing is returned. -/
theorem run_ends_at_folder :
    let files := (Files.inFolder (ascii "base") [(ascii "a", ascii "x")]).read
    let clock : Id Int := 0
    let plan : Plan :=
      { folder := ascii "base"
        configFile := ascii "bench.json"
        repetitions := 1
        details := true
        message := []
        inputs := [⟨[], .header⟩] }
    (plan.run (.recording files clock)).run.run [] =
        (.error ⟨ascii "base/"⟩,
          [ascii "base_folder: base", ascii "config_file: bench.json", ascii "repeat: 1",
            ascii "message: ", ascii "number of inputs: 1"]) ∧
      ¬ ∃ times, (plan.run (.recording files clock)).run.run [] =
        (.ok (plan.inputs.all (plan.isReadable files)), plan.account files times) := by
  intro files clock plan
  have hinputs : plan.inputs = [] ++ ⟨[], .header⟩ :: [] := rfl
  have hends : (plan.run (.recording files clock)).run.run [] =
      (.error ⟨ascii "base/"⟩, plan.detailed plan.intentions ++ plan.accounts files 0 [] []) :=
    plan.run_run_failing files clock hinputs nofun rfl
  refine ⟨hends.trans ?_, ?_⟩
  · have hintentions : plan.detailed plan.intentions ++ plan.accounts files 0 [] [] =
        [ascii "base_folder: base", ascii "config_file: bench.json", ascii "repeat: 1",
          ascii "message: ", ascii "number of inputs: 1"] := by decide
    rw [hintentions]
  · rintro ⟨times, h⟩
    rw [hends] at h
    cases h

end Bench
end PrefixMatching
