/-!
# Reading a sequence element by element

A sequence is stored in units, and a `Reading` says how its elements are read off them: the
element at the front and how many further units belong to it. Text is read as code points over
bytes, any other sequence unit by unit. Offsets always count units.

`elements` reads a whole sequence from its start; `isBoundary` decides with a short look back
whether that reading stops at an offset, and `splitAt?` cuts a sequence only there.
-/

namespace PrefixMatching

/-- An element read at the front of a sequence. The unit it was read at always belongs to it, so
reading never stands still. -/
structure Decoded where
  /-- The element as an integer. -/
  element : Int
  /-- How many units after the first one belong to the element. -/
  extra : Nat
deriving DecidableEq, Repr

/-- How many units an element occupies. -/
def Decoded.width (d : Decoded) : Nat := d.extra + 1

/-- How the elements of a sequence are read off its units. -/
structure Reading (α : Type) where
  /-- The element at the front of a nonempty sequence. -/
  decode : α → List α → Decoded
  /-- How many units before an offset an element that reaches past the offset can start. -/
  lookBack : Nat
  /-- An element ends inside the sequence. -/
  extra_le : ∀ unit units, (decode unit units).extra ≤ units.length

namespace Reading

variable {α : Type}

/-- The reading in which every unit is an element of its own. -/
def units (value : α → Int) : Reading α where
  decode unit _ := ⟨value unit, 0⟩
  lookBack := 0
  extra_le _ _ := Nat.zero_le _

/-! ## Elements of a whole sequence -/

/-- The elements after the `owed` units that still belong to an element already read. -/
def elementsFrom (R : Reading α) : (owed : Nat) → List α → List Decoded
  | _, [] => []
  | owed + 1, _ :: rest => elementsFrom R owed rest
  | 0, unit :: rest => R.decode unit rest :: elementsFrom R (R.decode unit rest).extra rest

/-- The elements of a sequence, read from its start. -/
def elements (R : Reading α) (s : List α) : List Decoded := R.elementsFrom 0 s

/-- How many elements a sequence has. -/
def length (R : Reading α) (s : List α) : Nat := (R.elements s).length

/-! ## Boundaries -/

/-- The element read at an offset, if the sequence reaches that far. -/
def decodeAt? (R : Reading α) (s : List α) (offset : Nat) : Option Decoded :=
  match s.drop offset with
  | [] => none
  | unit :: rest => some (R.decode unit rest)

/-- Whether the element read at an offset has more than `reach` units. -/
def passes (R : Reading α) (s : List α) (offset reach : Nat) : Bool :=
  match R.decodeAt? s offset with
  | none => false
  | some d => reach < d.width

/-- Whether no element that starts shortly before the offset reaches past it. -/
def isBoundary (R : Reading α) (s : List α) (offset : Nat) : Bool :=
  offset ≤ s.length &&
    (List.range' 1 R.lookBack).all fun back => offset < back || !R.passes s (offset - back) back

/-- The two parts of a sequence before and after a boundary. -/
def splitAt? (R : Reading α) (s : List α) (offset : Nat) : Option (List α × List α) :=
  if R.isBoundary s offset then some (s.take offset, s.drop offset) else none

end Reading

end PrefixMatching
