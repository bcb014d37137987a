import PrefixMatching.Proofs.Splitter

/-!
# A text and its lines

Lines come off a text until nothing is left, and they are the pieces between its line feeds
(`lines_are_pieces_between_lineFeeds`). This ends because each line leaves less of the text
(`exists_takes_pieces`), and it ends at the end of the text because whatever bytes are left have a
next line (`takes_lines`). What the lines are is then a fact about cutting at line feeds.

Lengths are 64-bit numbers, so every text that there is has a length below that bound.
-/

namespace PrefixMatching
namespace Splitter

variable {S : Splitter} {s rest last content line : Bytes} {taken : List Bytes}

/-! ## Taking pieces off a text -/

/-- `S.Takes s taken last`: the pieces `taken` come off `s` one after the other and leave `last`. -/
inductive Takes (S : Splitter) : Bytes → List Bytes → Bytes → Prop
  | done (s : Bytes) : S.Takes s [] s
  | next {s piece rest taken last} (first : S.next? s = some (piece, rest))
      (others : S.Takes rest taken last) : S.Takes s (piece :: taken) last

theorem Takes.length_le (h : S.Takes s taken last) : last.length ≤ s.length := by
  induction h with
  | done s => exact le_rfl
  | next first _ ih =>
    have hlt := S.length_lt first
    omega

/-- The pieces of a text come off it, until what is left has no next piece. -/
theorem exists_takes_pieces (S : Splitter) (s : Bytes) :
    ∃ last, S.Takes s (S.pieces s) last ∧ S.next? last = none := by
  fun_induction pieces S s with
  | case1 s hnext => exact ⟨s, .done s, hnext⟩
  | case2 s piece rest hnext ih =>
    obtain ⟨last, htakes, hlast⟩ := ih
    exact ⟨last, .next hnext htakes, hlast⟩

/-- All of a text comes off as lines: only at its end there is no next line. -/
theorem takes_lines (hfits : content.length < UInt64.size) :
    lines.Takes content (lines.pieces content) [] := by
  obtain ⟨last, htakes, hlast⟩ := exists_takes_pieces lines content
  have hle := htakes.length_le
  have hempty : last = [] := by
    by_contra hne
    have hnext := nextLine?_eq hne (by omega)
    exact absurd (hlast.symm.trans hnext) (by simp)
  exact hempty ▸ htakes

/-! ## The pieces between line feeds -/

/-- The pieces of a text between its line feeds, but for an empty one behind the last line feed. -/
def splitLines (content : Bytes) : List Bytes :=
  let parts := content.splitOn 0x0A
  if parts.getLast? = some [] then parts.dropLast else parts

theorem splitLines_nil : splitLines [] = [] := rfl

theorem splitLines_of_not_mem (hne : line ≠ []) (hline : 0x0A ∉ line) :
    splitLines line = [line] := by
  simp [splitLines, List.splitOn_eq_singleton hline, hne]

theorem splitLines_append_cons (hline : 0x0A ∉ line) (rest : Bytes) :
    splitLines (line ++ 0x0A :: rest) = line :: splitLines rest := by
  have hne : rest.splitOn 0x0A ≠ [] := List.splitOn_ne_nil 0x0A rest
  have hlast : (line :: rest.splitOn 0x0A).getLast? = (rest.splitOn 0x0A).getLast? := by
    rw [List.getLast?_cons, List.getLast?_eq_some_getLast hne, Option.getD_some]
  simp only [splitLines, List.splitOn_append_cons_self_of_not_mem hline, hlast,
    List.dropLast_cons_of_ne_nil hne]
  split <;> rfl

/-- The lines of a text are its pieces between line feeds. -/
theorem pieces_lines_eq_splitLines (hfits : content.length < UInt64.size) :
    lines.pieces content = splitLines content := by
  induction content using line_induction with
  | nil => exact pieces_lines_nil
  | unended line hne hline =>
    rw [pieces_lines_of_not_mem hne hline hfits, splitLines_of_not_mem hne hline]
  | ended line rest hline ih =>
    have hrest : rest.length < UInt64.size := by
      rw [List.length_append, List.length_cons] at hfits
      omega
    rw [pieces_lines_cons hline hfits, ih hrest, splitLines_append_cons hline]

theorem not_mem_of_mem_splitLines (h : line ∈ splitLines content) : 0x0A ∉ line := by
  induction content using line_induction with
  | nil => cases h
  | unended line' hne hline =>
    rw [splitLines_of_not_mem hne hline, List.mem_singleton] at h
    exact h ▸ hline
  | ended line' rest hline ih =>
    rw [splitLines_append_cons hline] at h
    rcases List.mem_cons.mp h with rfl | h
    · exact hline
    · exact ih h

theorem splitLines_ne_nil (hne : content ≠ []) : splitLines content ≠ [] := by
  induction content using line_induction with
  | nil => exact absurd rfl hne
  | unended line _ hline => simp [splitLines_of_not_mem hne hline]
  | ended line rest hline _ => simp [splitLines_append_cons hline]

theorem getLast?_ne_lineFeed (hline : 0x0A ∉ line) : line.getLast? ≠ some 0x0A :=
  fun h => hline (List.mem_of_getLast? h)

/-- The last byte of an ended line and what follows it. -/
theorem getLast?_append_lineFeed (line rest : Bytes) :
    (line ++ 0x0A :: rest).getLast? = if rest = [] then some 0x0A else rest.getLast? := by
  cases rest with
  | nil => simp
  | cons b rest => simp [List.getLast?_append, List.getLast?_cons]

/-- A text is its lines with a line feed between them, and one at its end if it has one there. -/
theorem intercalate_splitLines (content : Bytes) :
    [0x0A].intercalate (splitLines content) ++
      (if content.getLast? = some 0x0A then [0x0A] else []) = content := by
  induction content using line_induction with
  | nil => rfl
  | unended line hne hline =>
    rw [splitLines_of_not_mem hne hline, if_neg (getLast?_ne_lineFeed hline), List.append_nil]
    exact List.intercalate_singleton
  | ended line rest hline ih =>
    rw [splitLines_append_cons hline, getLast?_append_lineFeed]
    by_cases hrest : rest = []
    · subst hrest
      rw [splitLines_nil, List.intercalate_singleton, if_pos rfl, if_pos rfl]
    · rw [if_neg hrest, List.intercalate_cons_of_ne_nil (splitLines_ne_nil hrest),
        List.append_assoc, ih]
      simp

/-- There is one line for each line feed, and one more if something follows the last one. -/
theorem length_splitLines (content : Bytes) :
    (splitLines content).length = content.count 0x0A +
      if content ≠ [] ∧ content.getLast? ≠ some 0x0A then 1 else 0 := by
  induction content using line_induction with
  | nil => rfl
  | unended line hne hline =>
    rw [splitLines_of_not_mem hne hline, List.count_eq_zero_of_not_mem hline,
      if_pos ⟨hne, getLast?_ne_lineFeed hline⟩, List.length_singleton]
  | ended line rest hline ih =>
    have hcount : (line ++ 0x0A :: rest).count 0x0A = rest.count 0x0A + 1 := by
      rw [List.count_append, List.count_eq_zero_of_not_mem hline, List.count_cons_self,
        Nat.zero_add]
    rw [splitLines_append_cons hline, List.length_cons, ih, hcount, getLast?_append_lineFeed]
    by_cases hrest : rest = []
    · simp [hrest]
    · simp [hrest]
      omega

/-! ## The lines of a text -/

/-- A text is split into exactly its lines. Taking lines off it comes to the end of the text, and
the lines are the pieces between the line feeds, but for an empty one behind the last line feed. So
no line holds a line feed, the text is its lines joined by line feeds, and there are as many lines
as line feeds, or one more if something follows the last line feed. -/
theorem lines_are_pieces_between_lineFeeds (hfits : content.length < UInt64.size) :
    lines.Takes content (lines.pieces content) [] ∧
    lines.pieces content = splitLines content ∧
    (∀ line ∈ lines.pieces content, 0x0A ∉ line) ∧
    [0x0A].intercalate (lines.pieces content) ++
      (if content.getLast? = some 0x0A then [0x0A] else []) = content ∧
    (lines.pieces content).length = content.count 0x0A +
      if content ≠ [] ∧ content.getLast? ≠ some 0x0A then 1 else 0 := by
  have hpieces := pieces_lines_eq_splitLines hfits
  refine ⟨takes_lines hfits, hpieces, fun line hline => ?_, ?_, ?_⟩
  · exact not_mem_of_mem_splitLines (hpieces ▸ hline)
  · rw [hpieces]
    exact intercalate_splitLines content
  · rw [hpieces]
    exact length_splitLines content

/-- An empty line, a line that ends inside a character, and a last line without a line feed. -/
theorem lines_of_truncated_character :
    ([0x0A, 0xE2, 0x82, 0x0A, 0x62] : Bytes).length < UInt64.size ∧
    lines.Takes [0x0A, 0xE2, 0x82, 0x0A, 0x62] [[], [0xE2, 0x82], [0x62]] [] := by
  have hfits : ([0x0A, 0xE2, 0x82, 0x0A, 0x62] : Bytes).length < UInt64.size := by decide
  obtain ⟨htakes, hpieces, -⟩ := lines_are_pieces_between_lineFeeds hfits
  have hlines : splitLines [0x0A, 0xE2, 0x82, 0x0A, 0x62] = [[], [0xE2, 0x82], [0x62]] := by decide
  rw [hpieces, hlines] at htakes
  exact ⟨hfits, htakes⟩

end Splitter
end PrefixMatching
