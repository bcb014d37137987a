import PrefixMatching.Bench.Startup
import PrefixMatching.Proofs.Log

/-!
# What is logged about a benchmark that does not start

A benchmark without good options or without a configuration logs one message and ends. What is
wrong with an option is said without control characters, whatever the arguments were. The path of a
configuration is logged as it is, so there the message is as clean as the path.
-/

namespace PrefixMatching
namespace Bench

/-! ## Messages about options -/

variable {options : Options} {arguments : List Bytes} {error : OptionError}
  {option parameter : Bytes} {setting : Setting}

/-- Options that take a parameter have clean names. -/
theorem Setting.isClean_of_ofOption? (h : Setting.ofOption? option = some setting) :
    IsClean option := by
  have hnames : IsClean (ascii "-r") ∧ IsClean (ascii "-p") ∧ IsClean (ascii "-c") ∧
      IsClean (ascii "-m") := by decide
  obtain ⟨hrepeat, hfolder, hconfig, hmessage⟩ := hnames
  unfold Setting.ofOption? at h
  split_ifs at h with hr hp hc hm
  · exact hr ▸ hrepeat
  · exact hp ▸ hfolder
  · exact hc ▸ hconfig
  · exact hm ▸ hmessage

namespace Options

/-- A parameter is refused without saying what it was. -/
theorem isClean_message_of_set (h : options.set parameter setting = .error error) :
    IsClean error.message := by
  cases setting with
  | repetitions =>
    simp only [set, repetitions?] at h
    split at h
    · split at h
      · cases h
        decide
      · cases h
    · cases h
      decide
  | folder => cases h
  | configFile => cases h
  | message => cases h

/-- What is wrong with the arguments is said without control characters. -/
theorem isClean_message_of_read (h : (read options arguments).2 = some error) :
    IsClean error.message := by
  fun_induction read options arguments with
  | case1 => cases h
  | case2 options arguments ih => exact ih h
  | case3 options argument arguments _ _ =>
    cases h
    exact Log.isClean_untrusted (by decide) argument
  | case4 options argument _ setting hsetting =>
    cases h
    exact isClean_append.mpr ⟨by decide, Setting.isClean_of_ofOption? hsetting⟩
  | case5 options argument _ setting parameter arguments _ error' hset =>
    cases h
    exact isClean_message_of_set hset
  | case6 options argument _ setting parameter arguments _ options' _ ih => exact ih h

end Options

/-! ## Paths -/

/-- A path is clean if its parts are. The folder does not matter to a path from the root. -/
theorem isClean_joinPath_iff {folder path : Bytes} :
    IsClean (joinPath folder path) ↔
      IsClean path ∧ (startsAtRoot path = true ∨ IsClean folder) := by
  have hslash : IsClean (ascii "/") := by decide
  have hnil : IsClean [] := nofun
  unfold joinPath
  cases hroot : startsAtRoot path with
  | true => simp
  | false =>
    by_cases hfolder : folder = []
    · simp [hfolder, hnil]
    · by_cases hlast : folder.getLast? = some (byte '/')
      · simp [hfolder, hlast, and_comm]
      · simp [hfolder, hlast, hslash, and_comm]

/-! ## Benchmarks that do not start -/

section Launches

variable {m : Type → Type} [Monad m] [LawfulMonad m] {J : Type} {json : JsonReader J}
  {content? : Bytes → m (Option Bytes)} {log : Bytes → m Unit} {run : Plan → m Bool}
  {currentFolder : Bytes}

/-- A benchmark without good options logs what is wrong with them and ends. -/
theorem launch_of_badOption (h : Options.ofArguments arguments = (options, some error)) :
    launch json currentFolder content? log run arguments = (do log error.message; pure 1) := by
  rw [launch, start, h]
  exact pure_bind _ _

/-- A benchmark without a configuration logs where it looked for one and ends. -/
theorem launch_of_missingConfig {look : m Unit}
    (h : Options.ofArguments arguments = (options, none))
    (hcontent : content? (options.configPath currentFolder) = (do look; pure none)) :
    launch json currentFolder content? log run arguments = (do
      look
      log (StartError.missingConfig (options.configPath currentFolder)).message
      pure 1) := by
  rw [launch, start, h]
  dsimp only
  rw [hcontent, bind_assoc, bind_assoc]
  refine bind_congr fun _ => ?_
  rw [pure_bind, pure_bind]
  rfl

/-- A benchmark whose options are bad or whose configuration cannot be opened writes the line of one
message, the only thing it writes, and ends with exit code 1.

* What is written about an option is one line, and its message has no control characters, whatever
  the arguments and the time are.
* What is written about a configuration has no control characters behind the time stamp exactly if
  its path has none, which is up to the command line, and it is one line exactly if the path has no
  line feed. -/
theorem early_failure_logs_one_message (json : JsonReader J) (arithmetic : SignedArithmetic)
    (now : m Int) (put : Bytes → m Unit) :
    let log := Log.write arithmetic now put
    let stamp := fun ns => (Timestamp.format? arithmetic ns).getD (ascii "<unknown time>")
    (∀ error, Options.ofArguments arguments = (options, some error) →
      launch json currentFolder content? log run arguments = (do
        put (stamp (← now) ++ ascii " " ++ error.message ++ ascii "\n")
        pure 1) ∧
      IsClean error.message ∧
      ∀ ns : Int, Log.IsLine (stamp ns ++ ascii " " ++ error.message ++ ascii "\n")) ∧
    ∀ look : m Unit, Options.ofArguments arguments = (options, none) →
      content? (options.configPath currentFolder) = (do look; pure none) →
      let path := options.configPath currentFolder
      let message := ascii "Non-existing configuration file: " ++ path
      launch json currentFolder content? log run arguments = (do
        look
        put (stamp (← now) ++ ascii " " ++ message ++ ascii "\n")
        pure 1) ∧
      (IsClean message ↔ IsClean options.configFile ∧
        (startsAtRoot options.configFile = true ∨ IsClean (options.folderFrom currentFolder))) ∧
      ∀ ns : Int,
        Log.IsLine (stamp ns ++ ascii " " ++ message ++ ascii "\n") ↔ 0x0A ∉ path := by
  intro log stamp
  have hline (ns : Int) (message : Bytes) :
      Log.IsLine (stamp ns ++ ascii " " ++ message ++ ascii "\n") ↔ 0x0A ∉ message :=
    Log.isLine_line_iff (Log.isClean_stamp arithmetic ns)
  have hlog (message : Bytes) : (do log message; pure 1 : m Nat) = (do
      put (stamp (← now) ++ ascii " " ++ message ++ ascii "\n")
      pure 1) := bind_assoc _ _ _
  constructor
  · intro error h
    have hclean : IsClean error.message := Options.isClean_message_of_read (congrArg Prod.snd h)
    refine ⟨?_, hclean, fun ns => (hline ns _).mpr hclean.lineFeed_not_mem⟩
    rw [launch_of_badOption h, hlog]
  · intro look h hcontent path message
    have hlabel : IsClean (ascii "Non-existing configuration file: ") := by decide
    refine ⟨?_, ?_, fun ns => ?_⟩
    · rw [launch_of_missingConfig h hcontent]
      exact bind_congr fun _ => hlog message
    · rw [isClean_append, ← isClean_joinPath_iff]
      exact and_iff_right hlabel
    · rw [hline, List.mem_append]
      exact not_congr (or_iff_right hlabel.lineFeed_not_mem)

end Launches

/-- A reader that takes nothing for JSON. -/
def JsonReader.refusing : JsonReader Unit where
  parse _ := .error []
  member _ _ := .error []
  member? _ _ := none
  items _ := .error []
  text _ := .error []
  count _ := .error []

/-- An unknown argument with a line feed, and a folder with one. -/
theorem early_failure_logs_one_message_lineFeed :
    let put : Bytes → StateM Bytes Unit := fun text => modify (· ++ text)
    let run : Plan → StateM Bytes Bool := fun _ => pure true
    let content? : Bytes → StateM Bytes (Option Bytes) := fun _ => pure none
    let launched := launch .refusing [] content? (Log.write .exact (pure 0) put) run
    let options : Options := { folder := some [0x61, 0x0A] }
    let unknown := OptionError.unknownArgument [0x61, 0x0A]
    let message := ascii "Non-existing configuration file: " ++ options.configPath []
    (Options.ofArguments [[0x61, 0x0A]] = ({}, some unknown) ∧
      (launched [[0x61, 0x0A]]).run [] =
        (1, ascii "1970-01-01 00:00:00.000000 Unknown parameter a<0A>\n") ∧
      IsClean unknown.message) ∧
    (Options.ofArguments [ascii "-p", [0x61, 0x0A]] = (options, none) ∧
      (launched [ascii "-p", [0x61, 0x0A]]).run [] =
        (1, ascii "1970-01-01 00:00:00.000000 " ++
          ascii "Non-existing configuration file: a\n/bench.json\n") ∧
      ¬ IsClean message) := by
  intro put run content? launched options unknown message
  have hunknown : Options.ofArguments [[0x61, 0x0A]] = ({}, some unknown) := by decide
  have hoptions : Options.ofArguments [ascii "-p", [0x61, 0x0A]] = (options, none) := by decide
  have hmissing : content? (options.configPath []) = (pure () >>= fun _ => pure none) := rfl
  obtain ⟨hlaunch, hclean, -⟩ :=
    (early_failure_logs_one_message .refusing .exact (pure 0) put).1 _ hunknown
  obtain ⟨hlaunch', hclean', -⟩ :=
    (early_failure_logs_one_message .refusing .exact (pure 0) put).2 (pure ()) hoptions hmissing
  refine ⟨⟨hunknown, ?_, hclean⟩, hoptions, ?_, ?_⟩
  · show (launch .refusing [] content? _ run [[0x61, 0x0A]]).run [] = _
    rw [hlaunch]
    rfl
  · show (launch .refusing [] content? _ run [ascii "-p", [0x61, 0x0A]]).run [] = _
    rw [hlaunch']
    rfl
  · rw [hclean']
    decide

/-- The path of a configuration can make two lines of one message. -/
theorem launch_logs_two_lines :
    let now : StateM Bytes Int := pure 0
    let put : Bytes → StateM Bytes Unit := fun text => modify (· ++ text)
    let launched := launch .refusing (ascii ".") (fun _ => pure none) (Log.write .exact now put)
      (fun _ => pure true) [ascii "-p", ascii "a\nb"]
    (launched.run []).1 = 1 ∧ ¬ Log.IsLine (launched.run []).2 := by
  intro now put launched
  have hwritten : (launched.run []).2 = Log.line (Log.stamp .exact 0)
      (ascii "Non-existing configuration file: a\nb/bench.json") := by rfl
  refine ⟨rfl, ?_⟩
  rw [hwritten, Log.isLine_line_iff (Log.isClean_stamp .exact 0)]
  decide

end Bench
end PrefixMatching
