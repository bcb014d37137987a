import PrefixMatching.Proofs.Literals
import PrefixMatching.Proofs.Utf8.Ascii
import PrefixMatching.Splitter

/-!
# Lines of a text

The next line of a text is what comes before its first line feed (`nextLine?_eq`). So text that ends
with a line feed has the same lines wherever it stands (`pieces_lines_append`).

Lengths are 64-bit numbers: a text that is too long for that would not be scanned to its end.
-/

namespace PrefixMatching

/-- Bytes are equal if they are as elements. -/
theorem Element.decide_toNat_eq (b c : UInt8) :
    decide ((b.toNat : Int) = c.toNat) = decide (b = c) :=
  decide_eq_decide.mpr (Int.ofNat_inj.trans UInt8.toNat_inj)

namespace Splitter

variable {S : Splitter} {s piece rest content line x y : Bytes}

theorem pieces_of_next?_eq_none (h : S.next? s = none) : S.pieces s = [] := by
  rw [pieces]
  split
  · rfl
  · rename_i hsome
    rw [h] at hsome
    cases hsome

theorem pieces_of_next?_eq_some (h : S.next? s = some (piece, rest)) :
    S.pieces s = piece :: S.pieces rest := by
  rw [pieces]
  split
  · rename_i hnone
    rw [h] at hnone
    cases hnone
  · rename_i hsome
    rw [h] at hsome
    cases hsome
    rfl

/-- Whether a byte belongs to a line. -/
def inLine (b : UInt8) : Bool := b ≠ 0x0A

theorem not_isLineFeed_toNat (b : UInt8) : (!Element.isLineFeed b.toNat) = inLine b := by
  have hfeed : decide ((b.toNat : Int) = 0x0A) = decide (b = 0x0A) := Element.decide_toNat_eq b 0x0A
  rw [Element.isLineFeed, inLine, hfeed, decide_not]

/-- What comes after a line is nothing, or a line feed and more. -/
theorem dropWhile_inLine_cases (s : Bytes) :
    s.dropWhile inLine = [] ∨ ∃ rest, s.dropWhile inLine = 0x0A :: rest := by
  induction s with
  | nil => exact .inl rfl
  | cons b s ih =>
    by_cases hb : b = 0x0A
    · exact .inr ⟨s, by rw [List.dropWhile_cons_of_neg (by simp [inLine, hb]), hb]⟩
    · rw [List.dropWhile_cons_of_pos (by simp [inLine, hb])]
      exact ih

/-- The line feed after a line is taken if it is there. -/
theorem literal_lineFeed_dropWhile (s : Bytes) : ∃ matched,
    Reading.text.literal (ascii "\n") .cut (s.dropWhile inLine) =
      .ok matched ((s.dropWhile inLine).drop 1) := by
  rcases dropWhile_inLine_cases s with h | ⟨rest, h⟩
  · rw [h]
    exact ⟨some [], rfl⟩
  · have hfeed : ascii "\n" = [0x0A] := rfl
    have hformed : Utf8.IsWellFormed [0x0A] := ⟨['\n'], rfl⟩
    have hstops : Reading.text.Stops (0x0A :: rest) 1 := Utf8.stops_of_isWellFormed hformed rest
    have hmin : min (0x0A :: rest).length (ascii "\n").length = 1 := by
      rw [hfeed, List.length_cons, List.length_singleton]
      omega
    rw [h]
    refine ⟨some [0x0A], Reading.literal_eq_ok_iff.mpr ⟨nofun, ?_⟩⟩
    rw [hmin]
    exact ⟨rfl, hstops, rfl, rfl⟩

/-- A line is scanned byte by byte. -/
theorem outcome_takeWhile_line (hfits : content.length < UInt64.size) :
    (Reading.text.takeWhile (fun c => !Element.isLineFeed c) content).outcome =
      .ok (some (content.takeWhile inLine)) (content.dropWhile inLine) := by
  rw [Reading.outcome_takeWhile_of_length_lt
    (Element.isUniform_not Element.isUniform_isLineFeed).decidesByUnit hfits]
  simp only [not_isLineFeed_toNat]

/-- The next line goes up to the first line feed, the rest starts behind it. -/
theorem nextLine?_eq (hne : content ≠ []) (hfits : content.length < UInt64.size) :
    nextLine? content =
      some (content.takeWhile inLine, (content.dropWhile inLine).drop 1) := by
  obtain ⟨matched, hfeed⟩ := literal_lineFeed_dropWhile content
  have hempty : content.isEmpty = false := by simp [hne]
  rw [nextLine?, hempty, outcome_takeWhile_line hfits]
  dsimp only
  rw [hfeed]
  rfl

theorem pieces_lines_nil : lines.pieces [] = [] := pieces_of_next?_eq_none rfl

theorem pieces_lines_eq (hne : content ≠ []) (hfits : content.length < UInt64.size) :
    lines.pieces content =
      content.takeWhile inLine :: lines.pieces ((content.dropWhile inLine).drop 1) :=
  pieces_of_next?_eq_some (nextLine?_eq hne hfits)

/-- A text is empty, or a line without a line feed, or a line, its line feed and more text. -/
theorem line_induction {P : Bytes → Prop} (nil : P [])
    (unended : ∀ line, line ≠ [] → 0x0A ∉ line → P line)
    (ended : ∀ line rest, 0x0A ∉ line → P rest → P (line ++ 0x0A :: rest)) (content : Bytes) :
    P content := by
  induction hn : content.length using Nat.strong_induction_on generalizing content with
  | _ n ih =>
    by_cases hfeed : 0x0A ∈ content
    · obtain ⟨line, rest, rfl, hline⟩ := List.eq_append_cons_of_mem hfeed
      rw [List.length_append, List.length_cons] at hn
      exact ended line rest hline (ih rest.length (by omega) rest rfl)
    · by_cases hne : content = []
      · exact hne ▸ nil
      · exact unended content hne hfeed

theorem inLine_of_not_mem (hline : 0x0A ∉ line) : ∀ b ∈ line, inLine b = true := by
  intro b hb
  have hne : b ≠ 0x0A := fun heq => hline (heq ▸ hb)
  simp [inLine, hne]

/-- Text without a line feed is one line. -/
theorem pieces_lines_of_not_mem (hne : line ≠ []) (hline : 0x0A ∉ line)
    (hfits : line.length < UInt64.size) : lines.pieces line = [line] := by
  have hin := inLine_of_not_mem hline
  rw [pieces_lines_eq hne hfits, List.takeWhile_eq_self_iff.mpr hin,
    List.dropWhile_eq_nil_iff.mpr hin, List.drop_nil, pieces_lines_nil]

/-- A line that ends with a line feed is the first line, whatever follows it. -/
theorem pieces_lines_cons (hline : 0x0A ∉ line)
    (hfits : (line ++ 0x0A :: rest).length < UInt64.size) :
    lines.pieces (line ++ 0x0A :: rest) = line :: lines.pieces rest := by
  have hin := inLine_of_not_mem hline
  have hne : line ++ 0x0A :: rest ≠ [] := by simp
  rw [pieces_lines_eq hne hfits, List.takeWhile_append_of_pos hin, List.dropWhile_append_of_pos hin]
  simp [inLine]

/-- No line is longer than the text. -/
theorem length_le_of_mem_lines (hfits : content.length < UInt64.size)
    (hmem : piece ∈ lines.pieces content) : piece.length ≤ content.length := by
  induction content using line_induction with
  | nil =>
    rw [pieces_lines_nil] at hmem
    cases hmem
  | unended line hne hline =>
    rw [pieces_lines_of_not_mem hne hline hfits, List.mem_singleton] at hmem
    rw [hmem]
  | ended line rest hline ih =>
    rw [pieces_lines_cons hline hfits] at hmem
    rw [List.length_append, List.length_cons] at hfits ⊢
    rcases List.mem_cons.mp hmem with rfl | hmem
    · omega
    · have hle := ih (by omega) hmem
      omega

/-- Text that ends with a line feed has its own lines, whatever follows it. -/
theorem pieces_lines_append (hx : x = [] ∨ x.getLast? = some 0x0A)
    (hfits : (x ++ y).length < UInt64.size) :
    lines.pieces (x ++ y) = lines.pieces x ++ lines.pieces y := by
  induction x using line_induction with
  | nil => rw [pieces_lines_nil, List.nil_append, List.nil_append]
  | unended line hne hline =>
    have hmem : 0x0A ∈ line := List.mem_of_getLast? (hx.resolve_left hne)
    exact absurd hmem hline
  | ended line rest hline ih =>
    have hrest : rest = [] ∨ rest.getLast? = some 0x0A := by
      cases rest with
      | nil => exact .inl rfl
      | cons b rest => exact .inr (by simpa using hx)
    simp only [List.append_assoc, List.cons_append, List.length_append, List.length_cons] at hfits
    rw [List.append_assoc, List.cons_append,
      pieces_lines_cons hline (by simp only [List.length_append, List.length_cons]; omega),
      pieces_lines_cons hline (by simp only [List.length_append, List.length_cons]; omega),
      ih hrest (by rw [List.length_append]; omega), List.cons_append]

end Splitter
end PrefixMatching
