import PrefixMatching.Log
import PrefixMatching.Value

/-!
# Command line options

Options are read from left to right, and a later one overrides an earlier one. Reading stops at the
first argument that does not fit; the options before it stay in effect.
-/

namespace PrefixMatching
namespace Bench

/-- What the command line chooses. -/
structure Options where
  /-- The folder of the configuration and the inputs, absent for the current one. -/
  folder : Option Bytes := none
  configFile : Bytes := ascii "bench.json"
  /-- How often files are scanned, where that overrides the configuration. -/
  repetitions : Option Nat := none
  details : Bool := true
  /-- An annotation of the messages about files. -/
  message : Bytes := []
deriving DecidableEq, Repr

/-- Why the command line is refused. -/
inductive OptionError where
  /-- An option that takes a parameter is the last argument. -/
  | missingParameter (option : Bytes)
  | repeatNotANumber
  | repeatOutOfRange
  | unknownArgument (argument : Bytes)
deriving DecidableEq, Repr

/-- What is logged about a refusal. -/
def OptionError.message : OptionError → Bytes
  | .missingParameter option => ascii "Missing parameter for option " ++ option
  | .repeatNotANumber => ascii "Repeat value must be a non-negative integer"
  | .repeatOutOfRange => ascii "Repeat value is out of range"
  | .unknownArgument argument => Log.untrusted (ascii "Unknown parameter ") argument

/-- What an option with a parameter sets. -/
inductive Setting where
  | repetitions
  | folder
  | configFile
  | message
deriving DecidableEq, Repr

/-- The option that sets something. -/
def Setting.ofOption? (option : Bytes) : Option Setting :=
  if option = ascii "-r" then some .repetitions
  else if option = ascii "-p" then some .folder
  else if option = ascii "-c" then some .configFile
  else if option = ascii "-m" then some .message
  else none

namespace Options

/-- Whether a text is a run of digits and nothing else. -/
def isNumber (s : Bytes) : Bool :=
  match (Reading.text.takeAtLeast 1 Element.isDigit s).outcome with
  | .ok _ rest => rest.isEmpty
  | .failed => false

/-- The number of repetitions that a parameter denotes. -/
def repetitions? (parameter : Bytes) : Except OptionError Nat :=
  if isNumber parameter then
    match Value.integer? parameter with
    | none => .error .repeatOutOfRange
    | some n => .ok n
  else .error .repeatNotANumber

/-- Sets something to a parameter. -/
def set (options : Options) (parameter : Bytes) : Setting → Except OptionError Options
  | .repetitions => do
    let n ← repetitions? parameter
    pure { options with repetitions := some n }
  | .folder => pure { options with folder := some parameter }
  | .configFile => pure { options with configFile := parameter }
  | .message => pure { options with message := parameter }

/-- Reads arguments on top of options already read: the options in effect at the end, and what
was wrong if reading stopped early. -/
def read (options : Options) : List Bytes → Options × Option OptionError
  | [] => (options, none)
  | argument :: arguments =>
    if argument = ascii "-d" then read { options with details := false } arguments
    else
      match Setting.ofOption? argument, arguments with
      | none, _ => (options, some (.unknownArgument argument))
      | some _, [] => (options, some (.missingParameter argument))
      | some setting, parameter :: arguments =>
        match options.set parameter setting with
        | .error error => (options, some error)
        | .ok options => read options arguments

/-- Reads a command line. -/
def ofArguments (arguments : List Bytes) : Options × Option OptionError :=
  read {} arguments

end Options
end Bench
end PrefixMatching
