import PrefixMatching.Choice
import PrefixMatching.Collector
import PrefixMatching.Match

/-!
# What a run of a program records

A program works on states of several forms. While it runs it keeps a journal: which functions were
called with which arguments, and which elements were put to a predicate.
-/

namespace PrefixMatching

/-! ## Forms of state -/

/-- Whether a match carries a tag. -/
inductive Kind where
  | plain
  | tagged
deriving DecidableEq, Repr

namespace Kind

variable {α : Type}

/-- The matched part of a match of this kind. Tags are integers. -/
abbrev Part (α : Type) : Kind → Type
  | .plain => List α
  | .tagged => List α × Int

/-- The units of a matched part. -/
def units : (kind : Kind) → kind.Part α → List α
  | .plain, part => part
  | .tagged, part => part.1

/-- The tag of a matched part. -/
def tag? : (kind : Kind) → kind.Part α → Option Int
  | .plain, _ => none
  | .tagged, part => some part.2

/-- Replaces the units of a matched part. -/
def mapUnits {m : Type → Type} [Monad m] (f : List α → m (List α)) :
    (kind : Kind) → kind.Part α → m (kind.Part α)
  | .plain, part => f part
  | .tagged, part => do
    pure (← f part.1, part.2)

end Kind

/-- What a program works on at some point. -/
inductive Form where
  /-- A match. -/
  | one (kind : Kind)
  /-- A collection of matches. -/
  | many
  /-- A choice between branches. -/
  | choice (start found : Kind)
deriving DecidableEq, Repr

/-- The states of a form. -/
abbrev Form.State (α : Type) : Form → Type
  | .one kind => Match (kind.Part α) (List α)
  | .many => Collector (List α) (List α)
  | .choice start found => Choice (start.Part α) (found.Part α) (List α)

instance {α : Type} : (form : Form) → Failable (form.State α)
  | .one _ => ⟨.failed⟩
  | .many => ⟨.failed⟩
  | .choice _ _ => ⟨.between .failed⟩

/-! ## Journal -/

/-- The arguments of a call: a matched part, if there is one, and a rest. -/
structure Call (α : Type) where
  kind : Kind
  matched : Option (kind.Part α)
  rest : List α

namespace Call

variable {α : Type}

/-- The units of the matched part. -/
def units? (call : Call α) : Option (List α) := call.matched.map call.kind.units

/-- The tag of the matched part. -/
def tag? (call : Call α) : Option Int := call.matched.bind call.kind.tag?

end Call

/-- What a function is called for. -/
inductive Role where
  /-- It continues a match. -/
  | body
  /-- It continues a match whose condition does not hold. -/
  | otherwise
  /-- It is a condition. -/
  | condition
  /-- It watches a match. -/
  | watcher
deriving DecidableEq, Repr

/-- An entry of the journal. -/
inductive Event (α : Type) where
  /-- A function was called. -/
  | called (role : Role) (call : Call α)
  /-- A branch was offered a start. -/
  | offered (kind : Kind) (start : Match (kind.Part α) (List α))
  /-- A tag was handed over as the match lost it. -/
  | released (tag : Int)
  /-- The matched part or the rest was put to a function that replaces it. -/
  | replacedUnits (units : List α)
  /-- A tag was put to a function that replaces it. -/
  | replacedTag (tag : Int)

/-- What a run recorded. -/
structure Journal (α : Type) where
  /-- The calls, in order. -/
  events : List (Event α) := []
  /-- The elements put to predicates, in order. -/
  asked : List Int := []

/-- A computation that keeps a journal. -/
abbrev Recorded (α β : Type) := StateM (Journal α) β

namespace Recorded

variable {α β : Type}

/-- Adds an event to the journal. -/
def record (event : Event α) : Recorded α Unit :=
  modify fun journal => { journal with events := journal.events ++ [event] }

/-- Adds elements that were put to a predicate. -/
def note (asked : List Int) : Recorded α Unit :=
  modify fun journal => { journal with asked := journal.asked ++ asked }

/-- A function of a match as a function of its call that records the call first. -/
def calling (role : Role) (kind : Kind) (f : Call α → Recorded α β)
    (matched : Option (kind.Part α)) (rest : List α) : Recorded α β := do
  record (.called role ⟨kind, matched, rest⟩)
  f ⟨kind, matched, rest⟩

end Recorded
end PrefixMatching
