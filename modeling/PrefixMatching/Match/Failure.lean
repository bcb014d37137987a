import PrefixMatching.Bytes
import PrefixMatching.Match

/-!
# Matches that must not have failed

A caller who knows that a match cannot have failed demands its parts. If it has failed after all,
the failure says where they were demanded.
-/

namespace PrefixMatching

/-- A place in a program. -/
structure Site where
  file : Bytes
  line : Nat
  /-- The enclosing function, empty where it is unknown. -/
  function : Bytes
deriving DecidableEq, Repr

/-- The parts of a failed match were demanded. -/
structure MatchFailure where
  site : Site
  /-- What the caller says about it, empty where it says nothing. -/
  note : Bytes
deriving DecidableEq, Repr

namespace MatchFailure

/-- What is said of a failure on which the caller says nothing. -/
def defaultNote : Bytes := ascii "called unwrap on a failed match"

/-- The note followed by the place in parentheses. -/
def text (e : MatchFailure) : Bytes :=
  let note := if e.note.isEmpty then defaultNote else e.note
  let function := if e.site.function.isEmpty then [] else ascii ", " ++ e.site.function
  note ++ ascii " (" ++ e.site.file ++ ascii ":" ++ decimal e.site.line ++ function ++ ascii ")"

/-- What is reported of a failure: its text, which a zero byte of the note ends early. -/
def message (e : MatchFailure) : Bytes := beforeZero e.text

end MatchFailure

/-- The given parts, or the failure of a caller who demands them. -/
def demandParts {β : Type} (parts : Option β) (note : Bytes) (site : Site) :
    Except MatchFailure β :=
  match parts with
  | none => .error ⟨site, note⟩
  | some parts => .ok parts

namespace Match

variable {μ ρ : Type}

/-- Both parts of a match, or a failure with the caller's note and place. -/
def demand (x : Match μ ρ) (note : Bytes) (site : Site) : Except MatchFailure (Option μ × ρ) :=
  demandParts x.parts? note site

end Match
end PrefixMatching
