import PrefixMatching.Bytes
import PrefixMatching.Element
import PrefixMatching.Literal
import PrefixMatching.Scan
import PrefixMatching.Utf8

/-!
# Lines and tokens

A splitter takes one piece off the front of a text and leaves a shorter rest; its pieces are what
it takes off one after the other. Lines are the pieces between line feeds, tokens the runs between
blanks.
-/

namespace PrefixMatching

/-- A rule that takes one piece off the front of a text. -/
structure Splitter where
  /-- The next piece and the rest after it. -/
  next? : Bytes → Option (Bytes × Bytes)
  /-- Every piece leaves less to split. -/
  length_lt : ∀ {s piece rest}, next? s = some (piece, rest) → rest.length < s.length

namespace Splitter

/-- The pieces of a text, in order. -/
def pieces (S : Splitter) (s : Bytes) : List Bytes :=
  match _h : S.next? s with
  | none => []
  | some (piece, rest) => piece :: S.pieces rest
termination_by s.length
decreasing_by exact S.length_lt _h

/-! ## Lines -/

/-- The units up to the next line feed, and the rest after that line feed. At the end of the text
the line feed is cut down to nothing. -/
def nextLine? (content : Bytes) : Option (Bytes × Bytes) :=
  if content.isEmpty then none
  else
    match (Reading.text.takeWhile (fun c => !Element.isLineFeed c) content).outcome with
    | .ok (some line) rest =>
      match Reading.text.literal (ascii "\n") .cut rest with
      | .ok _ rest => some (line, rest)
      | .failed => none
    | _ => none

/-- A line and its line feed are never both empty. -/
theorem length_nextLine?_lt {content line rest : Bytes}
    (h : nextLine? content = some (line, rest)) : rest.length < content.length := by
  unfold nextLine? at h
  split at h
  · simp at h
  · rename_i hne
    split at h
    · rename_i taken rest₁ hscan
      split at h
      · rename_i matched rest₂ hfeed
        have hle := Reading.length_rest_takeWhile_le hscan
        have hdrop := (Reading.literal_eq_ok hfeed).2
        have hfeed_length : (ascii "\n").length = 1 := by decide
        have hpos : 0 < content.length := by
          simp only [List.isEmpty_iff] at hne
          exact List.length_pos_iff.mpr hne
        simp only [Option.some.injEq, Prod.mk.injEq] at h
        rw [← h.2, hdrop, List.length_drop, hfeed_length]
        omega
      · simp at h
    · simp at h

/-- Lines end with a line feed or with the text. -/
def lines : Splitter := ⟨nextLine?, length_nextLine?_lt⟩

/-! ## Tokens -/

/-- The next run of elements that are not blank. -/
def nextToken? (line : Bytes) : Option (Bytes × Bytes) :=
  let unindented := (Reading.text.takeWhile Element.isBlank line).outcome
  match (unindented.onRest
      (Reading.text.takeAtLeast 1 fun c => !Element.isBlank c)).outcome with
  | .ok (some token) rest => some (token, rest)
  | _ => none

/-- A token has at least one unit. -/
theorem length_nextToken?_lt {line token rest : Bytes}
    (h : nextToken? line = some (token, rest)) : rest.length < line.length := by
  unfold nextToken? at h
  cases hblank : (Reading.text.takeWhile Element.isBlank line).outcome with
  | failed => simp [hblank, Match.onRest, Failable.failed, Trial.unasked] at h
  | ok blanks unindented =>
    have hle := Reading.length_rest_takeWhile_le hblank
    simp only [hblank, Match.onRest] at h
    split at h
    · rename_i hrun
      have hlt := Reading.length_rest_takeAtLeast_lt hrun
      simp only [Option.some.injEq, Prod.mk.injEq] at h
      rw [← h.2]
      omega
    · simp at h

/-- Tokens are separated by blanks. -/
def tokens : Splitter := ⟨nextToken?, length_nextToken?_lt⟩

end Splitter
end PrefixMatching
