import PrefixMatching.Proofs.Splitter.Lines
import PrefixMatching.Proofs.Utf8.Runs

/-!
# A line and its tokens

Tokens come off a line until only blanks are left, and they are the pieces between its blanks that
are not empty (`tokens_are_runs_between_blanks`). About these pieces one equation is enough: a blank
parts a line into the pieces before it and the pieces after it (`splitTokens_append_cons`).

A line is a run without blanks, or such a run, a blank and more (`blank_induction`). A run that is
not empty is the next token (`nextToken?_run_append`), and a blank in front of a line is skipped
(`nextToken?_cons_blank`).

Lengths are 64-bit numbers: a line that is too long for that would not be scanned to its end.
-/

namespace PrefixMatching
namespace Splitter

variable {S : Splitter} {s s' line last x y w rest piece : Bytes} {b c : UInt8}

/-! ## Blanks -/

/-- Whether a byte is a space, a tab or a carriage return. -/
def isBlankByte (b : UInt8) : Bool := b = 0x20 || b = 0x09 || b = 0x0D

theorem isBlank_toNat (b : UInt8) : Element.isBlank b.toNat = isBlankByte b := by
  have hspace : decide ((b.toNat : Int) = 0x20) = decide (b = 0x20) :=
    Element.decide_toNat_eq b 0x20
  have htab : decide ((b.toNat : Int) = 0x09) = decide (b = 0x09) :=
    Element.decide_toNat_eq b 0x09
  have hreturn : decide ((b.toNat : Int) = 0x0D) = decide (b = 0x0D) :=
    Element.decide_toNat_eq b 0x0D
  rw [Element.isBlank, Element.isSpace, hspace, htab, hreturn, isBlankByte]

/-- A line is a run without blanks, or a run without blanks, a blank and more. -/
theorem blank_induction {P : Bytes → Prop} (run : ∀ w, (∀ b ∈ w, isBlankByte b = false) → P w)
    (blank : ∀ w b rest, (∀ b ∈ w, isBlankByte b = false) → isBlankByte b = true → P rest →
      P (w ++ b :: rest)) (line : Bytes) : P line := by
  induction hn : line.length using Nat.strong_induction_on generalizing line with
  | _ n ih =>
    have hparts := List.takeWhile_append_dropWhile (p := fun b => !isBlankByte b) (l := line)
    have hrun : ∀ b ∈ line.takeWhile fun b => !isBlankByte b, isBlankByte b = false := by
      intro b hb
      simpa using List.mem_takeWhile_imp hb
    cases hrest : line.dropWhile fun b => !isBlankByte b with
    | nil =>
      rw [hrest, List.append_nil] at hparts
      exact hparts ▸ run _ hrun
    | cons b rest =>
      have hb : (!isBlankByte b) = false :=
        eq_false_of_mem_head?_dropWhile (fun b => !isBlankByte b) line b (by simp [hrest])
      rw [hrest] at hparts
      have hlength := congrArg List.length hparts
      rw [List.length_append, List.length_cons] at hlength
      exact hparts ▸ blank _ b rest hrun (by simpa using hb) (ih rest.length (by omega) rest rfl)

/-! ## The next token -/

/-- What is split alike for the first piece is split alike. -/
theorem pieces_eq_of_next?_eq (h : S.next? s = S.next? s') : S.pieces s = S.pieces s' := by
  cases hnext : S.next? s with
  | none => rw [pieces_of_next?_eq_none hnext, pieces_of_next?_eq_none (h.symm.trans hnext)]
  | some found =>
    rw [pieces_of_next?_eq_some hnext, pieces_of_next?_eq_some (h.symm.trans hnext)]

/-- The run behind the blanks at the front of a line. -/
def firstRun (line : Bytes) : Bytes :=
  (line.dropWhile isBlankByte).takeWhile fun b => !isBlankByte b

/-- What follows the first run of a line. -/
def afterFirstRun (line : Bytes) : Bytes :=
  (line.dropWhile isBlankByte).dropWhile fun b => !isBlankByte b

/-- The next token is the first run, unless there is none. -/
theorem nextToken?_eq (hfits : line.length < UInt64.size) :
    nextToken? line =
      if firstRun line = [] then none else some (firstRun line, afterFirstRun line) := by
  have hblanks : (Reading.text.takeWhile Element.isBlank line).outcome =
      .ok (some (line.takeWhile isBlankByte)) (line.dropWhile isBlankByte) := by
    rw [Reading.outcome_takeWhile_of_length_lt Element.isUniform_isBlank.decidesByUnit hfits]
    simp only [isBlank_toNat]
  have hrun : (Reading.text.takeAtLeast 1 (fun c => !Element.isBlank c)
      (line.dropWhile isBlankByte)).outcome =
        if firstRun line = [] then .failed
        else .ok (some (firstRun line)) (afterFirstRun line) := by
    rw [Reading.outcome_takeAtLeast_one
      (Element.isUniform_not Element.isUniform_isBlank).decidesByUnit (length_dropWhile_lt hfits)]
    simp only [isBlank_toNat]
    rfl
  rw [nextToken?, hblanks]
  dsimp only [Match.onRest]
  rw [hrun]
  by_cases hnone : firstRun line = []
  · simp [hnone]
  · simp [hnone]

/-- A blank in front of a line is skipped. -/
theorem nextToken?_cons_blank (hb : isBlankByte b = true)
    (hfits : (b :: line).length < UInt64.size) : nextToken? (b :: line) = nextToken? line := by
  have hshort : line.length < UInt64.size := by
    rw [List.length_cons] at hfits
    omega
  have hskip : (b :: line).dropWhile isBlankByte = line.dropWhile isBlankByte :=
    List.dropWhile_cons_of_pos hb
  rw [nextToken?_eq hfits, nextToken?_eq hshort, firstRun, afterFirstRun, hskip]
  rfl

/-- A run that ends before a blank, or with the line, is the next token. -/
theorem nextToken?_run_append (hne : w ≠ []) (hw : ∀ b ∈ w, isBlankByte b = false)
    (hrest : ∀ b ∈ rest.head?, isBlankByte b = true) (hfits : (w ++ rest).length < UInt64.size) :
    nextToken? (w ++ rest) = some (w, rest) := by
  have hend : ∀ b ∈ rest.head?, (!isBlankByte b) = false := by simpa using hrest
  have hrun : ∀ b ∈ w, (!isBlankByte b) = true := by simpa using hw
  have hunindented : (w ++ rest).dropWhile isBlankByte = w ++ rest := by
    obtain ⟨b, more, rfl⟩ := List.exists_cons_of_ne_nil hne
    rw [List.cons_append, List.dropWhile_cons_of_neg (by simp [hw b])]
  have hfirst : firstRun (w ++ rest) = w := by
    rw [firstRun, hunindented, takeWhile_append_of_head hend, List.takeWhile_eq_self_iff.mpr hrun]
  have hafter : afterFirstRun (w ++ rest) = rest := by
    rw [afterFirstRun, hunindented, dropWhile_append_of_head hend,
      List.dropWhile_eq_nil_iff.mpr hrun, List.nil_append]
  rw [nextToken?_eq hfits, hfirst, hafter, if_neg hne]

/-- Only a line of blanks has no next token. -/
theorem isBlankByte_of_nextToken?_eq_none (hfits : line.length < UInt64.size)
    (h : nextToken? line = none) : ∀ b ∈ line, isBlankByte b = true := by
  have hnone : firstRun line = [] := by
    rw [nextToken?_eq hfits] at h
    by_contra hne
    simp [hne] at h
  rw [← List.dropWhile_eq_nil_iff]
  -- a byte behind the blanks would begin a run
  cases hrest : line.dropWhile isBlankByte with
  | nil => rfl
  | cons b rest =>
    have hb : isBlankByte b = false :=
      eq_false_of_mem_head?_dropWhile isBlankByte line b (by simp [hrest])
    simp [firstRun, hrest, hb] at hnone

/-! ## The pieces between blanks -/

/-- The pieces of a line between its blanks, but for the empty ones. -/
def splitTokens (line : Bytes) : List Bytes :=
  (line.splitOnP isBlankByte).filter fun piece => piece ≠ []

/-- A blank parts a line. -/
theorem splitTokens_append_cons (hb : isBlankByte b = true) (x y : Bytes) :
    splitTokens (x ++ b :: y) = splitTokens x ++ splitTokens y := by
  rw [splitTokens, List.splitOnP_append_cons x y hb, List.filter_append]
  rfl

theorem splitTokens_nil : splitTokens [] = [] := by simp [splitTokens]

/-- A line without blanks is one piece. -/
theorem splitTokens_of_run (hne : w ≠ []) (hw : ∀ b ∈ w, isBlankByte b = false) :
    splitTokens w = [w] := by
  simp [splitTokens, List.splitOnP_eq_singleton hw, hne]

theorem splitTokens_append_of_head (hy : ∀ b ∈ y.head?, isBlankByte b = true) (x : Bytes) :
    splitTokens (x ++ y) = splitTokens x ++ splitTokens y := by
  cases y with
  | nil => simp [splitTokens_nil]
  | cons b y =>
    have hb := hy b rfl
    have hfront := splitTokens_append_cons hb [] y
    rw [List.nil_append, splitTokens_nil, List.nil_append] at hfront
    rw [splitTokens_append_cons hb, hfront]

theorem splitTokens_append_of_getLast (hx : ∀ b ∈ x.getLast?, isBlankByte b = true) (y : Bytes) :
    splitTokens (x ++ y) = splitTokens x ++ splitTokens y := by
  induction x using List.reverseRecOn with
  | nil => simp [splitTokens_nil]
  | append_singleton x b _ =>
    have hb : isBlankByte b = true := hx b (by simp)
    rw [List.append_assoc, List.singleton_append, splitTokens_append_cons hb,
      splitTokens_append_cons hb, splitTokens_nil, List.append_nil]

/-- A run between blanks, or at an end of the line, is one piece. -/
theorem splitTokens_run_between (hx : ∀ b ∈ x.getLast?, isBlankByte b = true)
    (hne : w ≠ []) (hw : ∀ b ∈ w, isBlankByte b = false)
    (hy : ∀ b ∈ y.head?, isBlankByte b = true) :
    splitTokens (x ++ (w ++ y)) = splitTokens x ++ w :: splitTokens y := by
  rw [splitTokens_append_of_getLast hx, splitTokens_append_of_head hy, splitTokens_of_run hne hw,
    List.singleton_append]

theorem isRun_of_mem_splitTokens (h : piece ∈ splitTokens line) :
    piece ≠ [] ∧ ∀ b ∈ piece, isBlankByte b = false := by
  induction line using blank_induction with
  | run w hw =>
    by_cases hne : w = []
    · simp [hne, splitTokens_nil] at h
    · rw [splitTokens_of_run hne hw, List.mem_singleton] at h
      exact h ▸ ⟨hne, hw⟩
  | blank w b rest hw hb ih =>
    rw [splitTokens_append_cons hb, List.mem_append] at h
    rcases h with h | h
    · by_cases hne : w = []
      · simp [hne, splitTokens_nil] at h
      · rw [splitTokens_of_run hne hw, List.mem_singleton] at h
        exact h ▸ ⟨hne, hw⟩
    · exact ih h

/-- The pieces are what is left of a line without its blanks. -/
theorem flatten_splitTokens (line : Bytes) :
    (splitTokens line).flatten = line.filter fun b => !isBlankByte b := by
  have hrun : ∀ w : Bytes, (∀ b ∈ w, isBlankByte b = false) →
      (splitTokens w).flatten = w.filter fun b => !isBlankByte b := by
    intro w hw
    have hall : (w.filter fun b => !isBlankByte b) = w :=
      List.filter_eq_self.mpr (by simpa using hw)
    by_cases hne : w = []
    · simp [hne, splitTokens_nil]
    · simp [splitTokens_of_run hne hw, hall]
  induction line using blank_induction with
  | run w hw => exact hrun w hw
  | blank w b rest hw hb ih =>
    simp [splitTokens_append_cons hb, hrun w hw, ih, hb]

theorem pieces_tokens_nil : tokens.pieces [] = [] := pieces_of_next?_eq_none rfl

/-- The tokens of a line are its pieces between blanks. -/
theorem pieces_tokens_eq_splitTokens (hfits : line.length < UInt64.size) :
    tokens.pieces line = splitTokens line := by
  induction line using blank_induction with
  | run w hw =>
    by_cases hne : w = []
    · rw [hne, pieces_tokens_nil, splitTokens_nil]
    · have hnext : tokens.next? (w ++ []) = some (w, []) :=
        nextToken?_run_append hne hw nofun (by rwa [List.append_nil])
      rw [List.append_nil] at hnext
      rw [pieces_of_next?_eq_some hnext, pieces_tokens_nil, splitTokens_of_run hne hw]
  | blank w b rest hw hb ih =>
    have hlength : (b :: rest).length < UInt64.size ∧ rest.length < UInt64.size := by
      rw [List.length_append, List.length_cons] at hfits
      rw [List.length_cons]
      omega
    have hskip : tokens.next? (b :: rest) = tokens.next? rest := nextToken?_cons_blank hb hlength.1
    rw [splitTokens_append_cons hb, ← ih hlength.2, ← pieces_eq_of_next?_eq hskip]
    by_cases hne : w = []
    · rw [hne, splitTokens_nil, List.nil_append, List.nil_append]
    · have hnext : tokens.next? (w ++ b :: rest) = some (w, b :: rest) :=
        nextToken?_run_append hne hw (by simpa using hb) hfits
      rw [pieces_of_next?_eq_some hnext, splitTokens_of_run hne hw, List.singleton_append]

/-- Two bytes that are no blanks and stand side by side stand side by side in one piece, behind and
before as many others as in the line. -/
theorem exists_piece_of_adjacent (hb : isBlankByte b = false) (hc : isBlankByte c = false)
    (x y : Bytes) : ∃ before left right after,
      splitTokens (x ++ b :: c :: y) = before ++ (left ++ b :: c :: right) :: after ∧
      before.flatten ++ left = (x.filter fun b => !isBlankByte b) ∧
      right ++ after.flatten = y.filter fun b => !isBlankByte b := by
  -- the piece goes back to the last blank before the two bytes and on to the first one after them
  let inRun : UInt8 → Bool := fun b => !isBlankByte b
  have hx : x.rdropWhile inRun ++ x.rtakeWhile inRun = x := List.rdropWhile_append_rtakeWhile
  have hy : y.takeWhile inRun ++ y.dropWhile inRun = y := List.takeWhile_append_dropWhile
  have hleft : ∀ b ∈ x.rtakeWhile inRun, inRun b = true := fun b hb => List.mem_rtakeWhile_imp hb
  have hright : ∀ b ∈ y.takeWhile inRun, inRun b = true := fun b hb => List.mem_takeWhile_imp hb
  have hrun : ∀ d ∈ x.rtakeWhile inRun ++ b :: c :: y.takeWhile inRun, isBlankByte d = false := by
    simp only [List.mem_append, List.mem_cons]
    rintro d (hd | rfl | rfl | hd)
    · simpa [inRun] using hleft d hd
    · exact hb
    · exact hc
    · simpa [inRun] using hright d hd
  have hline : x ++ b :: c :: y = x.rdropWhile inRun ++
      ((x.rtakeWhile inRun ++ b :: c :: y.takeWhile inRun) ++ y.dropWhile inRun) := by
    rw [List.append_assoc, List.cons_append, List.cons_append, hy, ← List.append_assoc, hx]
  refine ⟨splitTokens (x.rdropWhile inRun), x.rtakeWhile inRun, y.takeWhile inRun,
    splitTokens (y.dropWhile inRun), ?_, ?_, ?_⟩
  · rw [hline]
    apply splitTokens_run_between _ (by simp) hrun
    · intro d hd
      simpa [inRun] using eq_false_of_mem_head?_dropWhile inRun y d hd
    · intro d hd
      simpa [inRun] using eq_false_of_mem_getLast?_rdropWhile inRun x d hd
  · conv_rhs => rw [← hx]
    rw [flatten_splitTokens, List.filter_append, List.filter_eq_self.mpr hleft]
  · conv_rhs => rw [← hy]
    rw [flatten_splitTokens, List.filter_append, List.filter_eq_self.mpr hright]

/-! ## The tokens of a line -/

/-- A line is split into exactly its runs without blanks, whatever its bytes are. Taking tokens off
it comes to an end, where at most blanks are left. The tokens are the pieces between spaces, tabs
and carriage returns, but for the empty ones. So they are not empty and hold no blanks, they are
what is left of the line without its blanks, and two bytes that are no blanks and stand side by side
are never parted. -/
theorem tokens_are_runs_between_blanks (hfits : line.length < UInt64.size) :
    (∃ last, tokens.Takes line (tokens.pieces line) last ∧ tokens.next? last = none ∧
      ∀ b ∈ last, isBlankByte b = true) ∧
    tokens.pieces line = ((line.splitOnP isBlankByte).filter fun piece => piece ≠ []) ∧
    (∀ token ∈ tokens.pieces line, token ≠ [] ∧ ∀ b ∈ token, isBlankByte b = false) ∧
    (tokens.pieces line).flatten = (line.filter fun b => !isBlankByte b) ∧
    ∀ x b c y, line = x ++ b :: c :: y → isBlankByte b = false → isBlankByte c = false →
      ∃ before left right after,
        tokens.pieces line = before ++ (left ++ b :: c :: right) :: after ∧
        before.flatten ++ left = (x.filter fun b => !isBlankByte b) ∧
        right ++ after.flatten = y.filter fun b => !isBlankByte b := by
  have hpieces := pieces_tokens_eq_splitTokens hfits
  refine ⟨?_, hpieces, fun token htoken => ?_, ?_, ?_⟩
  · obtain ⟨last, htakes, hlast⟩ := exists_takes_pieces tokens line
    have hle := htakes.length_le
    exact ⟨last, htakes, hlast, isBlankByte_of_nextToken?_eq_none (by omega) hlast⟩
  · rw [hpieces] at htoken
    exact isRun_of_mem_splitTokens htoken
  · rw [hpieces]
    exact flatten_splitTokens line
  · rintro x b c y rfl hb hc
    rw [hpieces]
    exact exists_piece_of_adjacent hb hc x y

/-- A first byte without its continuation bytes before a tab, and a word with a malformed byte. -/
theorem tokens_of_truncated_character :
    let line : Bytes := [0x20, 0xE2, 0x09, 0x0D, 0x61, 0xFF, 0x20]
    line.length < UInt64.size ∧ tokens.pieces line = [[0xE2], [0x61, 0xFF]] ∧
    ([0x61, 0xFF] ∈ tokens.pieces line ∧ ∀ b ∈ ([0x61, 0xFF] : Bytes), isBlankByte b = false) ∧
    (line = [0x20, 0xE2, 0x09, 0x0D] ++ 0x61 :: 0xFF :: [0x20] ∧
      isBlankByte 0x61 = false ∧ isBlankByte 0xFF = false ∧
      ∃ before left right after, tokens.pieces line =
        before ++ (left ++ 0x61 :: 0xFF :: right) :: after) := by
  intro line
  have hfits : line.length < UInt64.size := by decide
  obtain ⟨-, hpieces, hruns, -, hadjacent⟩ := tokens_are_runs_between_blanks hfits
  have htokens : tokens.pieces line = [[0xE2], [0x61, 0xFF]] := by
    rw [hpieces]
    decide
  have hmem : [0x61, 0xFF] ∈ tokens.pieces line := by simp [htokens]
  obtain ⟨before, left, right, after, hparts, -⟩ :=
    hadjacent [0x20, 0xE2, 0x09, 0x0D] 0x61 0xFF [0x20] rfl (by decide) (by decide)
  exact ⟨hfits, htokens, ⟨hmem, (hruns _ hmem).2⟩, rfl, by decide, by decide,
    before, left, right, after, hparts⟩

end Splitter
end PrefixMatching
