import PrefixMatching.Literal
import PrefixMatching.Program.Journal

/-!
# Conditions on a call

Descriptions of the conditions that programs put to the matched part, the rest and the tag of a
call. A condition on a part that is absent does not hold.
-/

namespace PrefixMatching

/-- A condition on the arguments of a call. -/
inductive Condition (α : Type) where
  | always
  | never
  | restIsEmpty
  | hasMatched
  /-- The matched part has this many units. -/
  | matchedHasLength (n : Int)
  /-- The rest has this many units. -/
  | restHasLength (n : Int)
  | matchedIs (units : List α)
  /-- The rest starts with this literal. -/
  | restStartsWith (pattern : List α)
  | tagIs (tag : Int)
  | not (c : Condition α)
deriving Repr

namespace Condition

variable {α : Type} [DecidableEq α]

/-- Whether a condition holds of a call. -/
def holds (R : Reading α) : Condition α → Call α → Bool
  | .always, _ => true
  | .never, _ => false
  | .restIsEmpty, call => call.rest.isEmpty
  | .hasMatched, call => call.matched.isSome
  | .matchedHasLength n, call => call.units?.any fun units => (units.length : Int) = n
  | .restHasLength n, call => (call.rest.length : Int) = n
  | .matchedIs units, call => call.units?.any fun part => part = units
  | .restStartsWith pattern, call => !(R.literal pattern .whole call.rest).isFailed
  | .tagIs tag, call => call.tag?.any fun value => value = tag
  | .not c, call => !c.holds R call

end Condition
end PrefixMatching
