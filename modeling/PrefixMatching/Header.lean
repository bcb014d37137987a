import PrefixMatching.Collector
import PrefixMatching.Element
import PrefixMatching.Literal
import PrefixMatching.Scan
import PrefixMatching.Utf8

/-!
# Header lines

A header line is a name, a colon and a value. A value may be a list, whose items are separated by
commas with spaces around them.
-/

namespace PrefixMatching

/-- A header line taken apart. -/
structure Header where
  name : Bytes
  value : Bytes
deriving DecidableEq, Repr

namespace Header

open Reading (text)

/-! ## Name and value -/

/-- A letter, a digit, or one of the marks that names may hold. -/
def isNameElement (c : Int) : Bool :=
  Element.isLetter c || Element.isDigit c || Element.isOneOf (ascii "!#$%&'*+-.^_`|~") c

/-- A colon and the spaces after it. -/
def colon (s : Bytes) : Match Bytes Bytes :=
  ((text.literal (ascii ":") .whole s).onRest (text.takeWhile Element.isSpace)).outcome

/-- Whether a byte at the end of a value is dropped. -/
def isTrailing (b : UInt8) : Bool := Element.isOneOf (ascii " \t\r\n") b.toNat

/-- A value without the spaces and line ends after it. -/
def trimmed (s : Bytes) : Bytes := (s.reverse.dropWhile isTrailing).reverse

/-- The name of a line, with the rest after the colon. -/
def named (line : Bytes) : Match Bytes Bytes :=
  (text.takeAtLeast 1 isNameElement line).outcome.skipping (m := Id) fun _ rest => colon rest

/-- The header on a line. -/
def ofLine? (line : Bytes) : Option Header :=
  match named line with
  | .ok (some name) rest => some ⟨name, trimmed rest⟩
  | _ => none

/-! ## List values -/

/-- Anything but a comma or a space. -/
def isItemElement (c : Int) : Bool := c ≠ Element.ofChar ',' && !Element.isSpace c

/-- A comma with the spaces around it. -/
def comma (s : Bytes) : Match Bytes Bytes :=
  let mark := (text.takeWhile Element.isSpace s).outcome.onRest (text.literal (ascii ",") .whole)
  (mark.onRest (text.takeWhile Element.isSpace)).outcome

/-- One item of a list. -/
def item (s : Bytes) : Match Bytes Bytes := (text.takeAtLeast 1 isItemElement s).outcome

/-- Whether nothing but spaces is left. -/
def isAllSpace (s : Bytes) : Bool :=
  match (text.takeWhile Element.isSpace s).outcome with
  | .ok _ rest => rest.isEmpty
  | .failed => false

/-- Collects the next item after its comma. -/
def nextItem (c : Collector Bytes Bytes) : Collector Bytes Bytes :=
  let separated : Collector Bytes Bytes := c.skipping (m := Id) fun _ rest => comma rest
  separated.step (m := Id) fun _ rest => item rest

/-- How much a chain can still take: nothing once it failed. -/
def remaining : Collector Bytes Bytes → Nat
  | .failed => 0
  | .active _ _ rest => rest.length + 1

/-- A comma is a byte at least. -/
theorem length_comma_lt {s rest : Bytes} {matched : Option Bytes}
    (h : comma s = .ok matched rest) : rest.length < s.length := by
  unfold comma at h
  cases hspace : (text.takeWhile Element.isSpace s).outcome with
  | failed => simp [hspace, Match.onRest, Failable.failed, Trial.unasked] at h
  | ok spaces unindented =>
    have hle := Reading.length_rest_takeWhile_le hspace
    cases hcomma : text.literal (ascii ",") .whole unindented with
    | failed => simp [hspace, hcomma, Match.onRest, Failable.failed, Trial.unasked] at h
    | ok matched₁ rest₁ =>
      simp only [hspace, hcomma, Match.onRest] at h
      have hafter := Reading.length_rest_takeWhile_le h
      have hlong := Reading.length_le_of_literal_whole hcomma
      have hdrop := (Reading.literal_eq_ok hcomma).2
      have hcomma_length : (ascii ",").length = 1 := by decide
      rw [hdrop, List.length_drop, hcomma_length] at hafter
      omega

/-- Every item takes a chain further. -/
theorem remaining_nextItem_lt (kept : List Bytes) (latest : Option Bytes) (rest : Bytes) :
    remaining (nextItem (.active kept latest rest)) < remaining (.active kept latest rest) := by
  cases hsep : comma rest with
  | failed =>
    have hnext : nextItem (.active kept latest rest) = .failed := by
      simp [nextItem, Collector.skipping, Collector.step, hsep, pure, bind]
    rw [hnext]
    exact Nat.succ_pos _
  | ok matched rest₁ =>
    have hlt := length_comma_lt hsep
    cases helem : item rest₁ with
    | failed =>
      have hnext : nextItem (.active kept latest rest) = .failed := by
        simp [nextItem, Collector.skipping, Collector.step, hsep, helem, pure, bind]
      rw [hnext]
      exact Nat.succ_pos _
    | ok matched₂ rest₂ =>
      have hlt₂ := Reading.length_rest_takeAtLeast_lt helem
      have hnext : nextItem (.active kept latest rest)
          = .active (kept ++ latest.toList) matched₂ rest₂ := by
        simp [nextItem, Collector.skipping, Collector.step, hsep, helem, pure, bind]
      rw [hnext]
      simp only [remaining]
      omega

/-- Collects items until nothing but spaces is left. -/
def collectItems : Collector Bytes Bytes → Collector Bytes Bytes
  | .failed => .failed
  | .active kept latest rest =>
    if isAllSpace rest then .active kept latest rest
    else collectItems (nextItem (.active kept latest rest))
termination_by c => remaining c
decreasing_by exact remaining_nextItem_lt kept latest rest

/-- The first item of a list, after the spaces before it. -/
def firstItem (value : Bytes) : Match Bytes Bytes :=
  (text.takeWhile Element.isSpace value).outcome.onRest item

/-- The items of a list value. -/
def items? (value : Bytes) : Option (List Bytes) :=
  (collectItems (.ofMatch (firstItem value))).result?.map Prod.fst

end Header
end PrefixMatching
