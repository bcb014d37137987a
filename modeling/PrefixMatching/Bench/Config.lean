import PrefixMatching.Bench.Tally

/-!
# Configurations

A configuration lists the files to scan, each with its scanner, and says how often they are scanned.
It is a JSON object such as

  `{ "inputs": [ { "file": "headers.txt", "scanner": "header" } ], "repeat": 10 }`

where the scanner may be left out for the header scanner and the repetitions for one. Reading JSON
is not part of this library: a reader comes from outside, with its values and with what it says
about those that it refuses.
-/

namespace PrefixMatching
namespace Bench

/-- A file to scan. -/
structure Input where
  file : Bytes
  scanner : Scanner := .header
deriving DecidableEq, Repr

/-- What a configuration says. -/
structure Config where
  inputs : List Input
  repetitions : Nat := 1
deriving DecidableEq, Repr

/-- The scanner of a name. -/
def Scanner.ofName? (name : Bytes) : Option Scanner :=
  if name = ascii "header" then some .header
  else if name = ascii "value" then some .value
  else none

/-- What a configuration needs of a reader of JSON with values in `J`. An operation that fails says
why. -/
structure JsonReader (J : Type) where
  /-- The value that a text is. -/
  parse : Bytes → Except Bytes J
  /-- The member with a key, which has to be there. -/
  member : Bytes → J → Except Bytes J
  /-- The member with a key, if there is one. -/
  member? : Bytes → J → Option J
  /-- The items of an array. -/
  items : J → Except Bytes (List J)
  /-- The text of a string. -/
  text : J → Except Bytes Bytes
  /-- A number as an unsigned one of 64 bits. -/
  count : J → Except Bytes UInt64

namespace JsonReader

variable {J : Type} (json : JsonReader J)

/-- The scanner of an input, the header scanner where none is named. -/
def scannerOf (value : J) : Except Bytes Scanner :=
  match json.member? (ascii "scanner") value with
  | none => .ok .header
  | some value => do
    let name ← json.text value
    match Scanner.ofName? name with
    | none => .error (ascii "Unknown scanner: " ++ name)
    | some scanner => .ok scanner

/-- One input. -/
def inputOf (value : J) : Except Bytes Input := do
  let file ← json.text (← json.member (ascii "file") value)
  pure { file := file, scanner := ← json.scannerOf value }

/-- The number of repetitions, one where none is given. -/
def repetitionsOf (value : J) : Except Bytes Nat :=
  match json.member? (ascii "repeat") value with
  | none => .ok 1
  | some value => do pure (← json.count value).toNat

/-- Reads a configuration. -/
def config (content : Bytes) : Except Bytes Config := do
  let value ← json.parse content
  let items ← json.items (← json.member (ascii "inputs") value)
  let inputs ← items.mapM json.inputOf
  pure { inputs := inputs, repetitions := ← json.repetitionsOf value }

end JsonReader
end Bench
end PrefixMatching
