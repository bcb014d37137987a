import PrefixMatching.Bench.Options
import PrefixMatching.Bench.Plan

/-!
# Starting a benchmark

Before anything is scanned, the command line must be in order and the configuration must be there,
well-formed and not empty. Otherwise one message is logged and the program ends with exit code 1. A
configuration that can be opened but not read from is a failure that nothing handles.
-/

namespace PrefixMatching
namespace Bench

/-- Why a benchmark does not start. -/
inductive StartError where
  | badOption (error : OptionError)
  | missingConfig (path : Bytes)
  | invalidConfig (path reason : Bytes)
  | noInputs
deriving DecidableEq, Repr

/-- What is logged about a benchmark that does not start. The reason for which a configuration is
refused ends before its first zero byte. -/
def StartError.message : StartError → Bytes
  | .badOption error => error.message
  | .missingConfig path => ascii "Non-existing configuration file: " ++ path
  | .invalidConfig path reason =>
    ascii "Invalid configuration file " ++ path ++ ascii ": " ++ beforeZero reason
  | .noInputs => ascii "Didn't manage to load any inputs to benchmark"

/-- The exit code of a benchmark that does not start. -/
def StartError.exitCode : Nat := 1

/-- The folder of the configuration and the inputs. -/
def Options.folderFrom (options : Options) (currentFolder : Bytes) : Bytes :=
  options.folder.getD currentFolder

/-- The path of the configuration. -/
def Options.configPath (options : Options) (currentFolder : Bytes) : Bytes :=
  joinPath (options.folderFrom currentFolder) options.configFile

/-- The plan of a configuration under the options of the command line. -/
def Options.plan (options : Options) (currentFolder : Bytes) (config : Config) : Plan :=
  { folder := options.folderFrom currentFolder
    configFile := options.configFile
    repetitions := options.repetitions.getD config.repetitions
    details := options.details
    message := options.message
    inputs := config.inputs }

section Launch

variable {m : Type → Type} [Monad m] {J : Type}

/-- The plan of a command line. The configuration is read with `content?`, which comes to nothing
where the path cannot be opened. A failure to read from it is an exception of `m`. -/
def start (json : JsonReader J) (currentFolder : Bytes) (content? : Bytes → m (Option Bytes))
    (arguments : List Bytes) : m (Except StartError Plan) :=
  match Options.ofArguments arguments with
  | (_, some error) => pure (.error (.badOption error))
  | (options, none) => do
    let path := options.configPath currentFolder
    match ← content? path with
    | none => pure (.error (.missingConfig path))
    | some content =>
      match json.config content with
      | .error reason => pure (.error (.invalidConfig path reason))
      | .ok config =>
        if config.inputs.isEmpty then pure (.error .noInputs)
        else pure (.ok (options.plan currentFolder config))

/-- Runs a command line: its exit code. A benchmark that does not start is logged; one that runs
ends with zero if every input could be read. -/
def launch (json : JsonReader J) (currentFolder : Bytes) (content? : Bytes → m (Option Bytes))
    (log : Bytes → m Unit) (run : Plan → m Bool) (arguments : List Bytes) : m Nat := do
  match ← start json currentFolder content? arguments with
  | .error error =>
    log error.message
    pure StartError.exitCode
  | .ok plan => pure (if ← run plan then 0 else 1)

end Launch

end Bench
end PrefixMatching
