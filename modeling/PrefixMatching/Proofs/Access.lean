import PrefixMatching.Bench.Tally
import PrefixMatching.Proofs.Outcomes
import PrefixMatching.Proofs.Scans.Passes
import PrefixMatching.Proofs.Splitter.Lines
import PrefixMatching.Proofs.Value.Tokens

/-!
# Parts that are read without a check

The scanners read the parts of their matches without asking whether they are there. They always are
(`accessed_parts_are_there`).

A matcher that does not fail has a matched part, and whatever continues its match without dropping
the part keeps it (`Match.IsFull`). So a token that is classified has a matched part together with
its form, and the part of a color has its number of hexadecimal digits (`branch_cases`). The loops
keep the same invariant from pass to pass.
-/

namespace PrefixMatching

variable {μ ν ρ α : Type}

/-! ## Matched parts -/

/-- A match that failed, or that has a matched part. -/
inductive Match.IsFull : Match μ ρ → Prop where
  | failed : IsFull .failed
  | ok (matched : μ) (rest : ρ) : IsFull (.ok (some matched) rest)

namespace Match

theorem IsFull.cases {x : Match μ ρ} (h : x.IsFull) :
    x = .failed ∨ ∃ matched rest, x = .ok (some matched) rest := by
  cases h with
  | failed => exact .inl rfl
  | ok matched rest => exact .inr ⟨matched, rest, rfl⟩

/-- A matcher that sets the matched part does so on every rest. -/
theorem isFull_onRest {matcher : ρ → Trial α} (h : ∀ rest, (matcher rest).outcome.IsFull)
    (x : Match μ ρ) : (x.onRest matcher).outcome.IsFull := by
  cases x with
  | failed => exact .failed
  | ok matched rest => exact h rest

/-- The matched part is kept while more is skipped. -/
theorem IsFull.skipping {m : Type → Type} [Monad m] [LawfulMonad m] [MonadAttach m]
    [LawfulMonadAttach m] {x y : Match μ ρ} {f : Option μ → ρ → m (Match ν ρ)} (hx : x.IsFull)
    (h : MonadAttach.CanReturn (x.skipping f) y) : y.IsFull := by
  obtain rfl | ⟨matched, rest, skipped, rest', rfl, -, rfl⟩ := canReturn_skipping h
  · exact .failed
  · cases hx with
    | ok matched rest => exact .ok matched rest'

end Match

/-- A matcher that splits its sequence has the front of it as its matched part. -/
theorem Reading.IsSplit.isFull {R : Reading α} {s : List α} {x : Match (List α) (List α)}
    (h : R.IsSplit s x) : x.IsFull := by
  obtain rfl | ⟨n, -, rfl⟩ := h
  · exact .failed
  · exact .ok _ _

/-! ## Values -/

namespace Value

open Reading (text)

variable {matched : Bytes} {n : Nat}

/-- Whole tokens keep their matched part, and get their form with it. -/
theorem exhausting_tag_cases {x : Match Bytes Bytes} (hx : x.IsFull) (form : TokenForm) :
    exhausting (x.tag form) = .failed ∨
      ∃ matched, x = .ok (some matched) [] ∧
        exhausting (x.tag form) = .ok (some (matched, form)) [] := by
  cases hx with
  | failed => exact .inl rfl
  | ok matched rest =>
    have htag : exhausting ((Match.ok (some matched) rest).tag form) =
        if rest = [] then .ok (some (matched, form)) rest else .failed := exhausting_ok _ rest
    by_cases hrest : rest = []
    · rw [if_pos hrest] at htag
      exact .inr ⟨matched, by rw [hrest], by rw [htag, hrest]⟩
    · rw [if_neg hrest] at htag
      exact .inl htag

theorem isFull_digitRun (start : Match μ Bytes) : (digitRun start).IsFull :=
  Match.isFull_onRest
    (fun rest => (Reading.isSplit_takeAtLeast 1 Element.isDigit rest).isFull) start

/-- A match of a color is its digits. -/
theorem asColor_cases (hn : n < UInt64.size) (form : TokenForm) (start : Match Bytes Bytes) :
    asColor n form start = .failed ∨
      ∃ matched, asColor n form start = .ok (some (matched, form)) [] ∧ IsHexDigits n matched := by
  have hfull : ((numberSign start).onRest (text.takeExactly n Element.isHexDigit)).outcome.IsFull :=
    Match.isFull_onRest
      (fun rest => (Reading.isSplit_takeBetween n n Element.isHexDigit rest).isFull) _
  obtain hfailed | ⟨matched, hdigits, hok⟩ := exhausting_tag_cases hfull form
  · exact .inl hfailed
  · refine .inr ⟨matched, hok, ?_⟩
    cases hsign : numberSign start with
    | failed =>
      rw [hsign] at hdigits
      cases hdigits
    | ok sign digits =>
      rw [hsign] at hdigits
      exact isHexDigits_of_takeExactly hn hdigits

/-- A branch fails, or it has a matched part together with its form. The part of a color is its
digits. -/
theorem branch_cases (form : TokenForm) (start : Match Bytes Bytes) :
    branch form start = .failed ∨
      ∃ matched, branch form start = .ok (some (matched, form)) [] ∧
        (form = .sixDigitColor → IsHexDigits 6 matched) ∧
        (form = .threeDigitColor → IsHexDigits 3 matched) := by
  cases form with
  | sixDigitColor =>
    obtain hfailed | ⟨matched, hok, hhex⟩ :=
      asColor_cases (show 6 < UInt64.size by decide) .sixDigitColor start
    · exact .inl hfailed
    · exact .inr ⟨matched, hok, fun _ => hhex, nofun⟩
  | threeDigitColor =>
    obtain hfailed | ⟨matched, hok, hhex⟩ :=
      asColor_cases (show 3 < UInt64.size by decide) .threeDigitColor start
    · exact .inl hfailed
    · exact .inr ⟨matched, hok, nofun, fun _ => hhex⟩
  | integer =>
    obtain hfailed | ⟨matched, -, hok⟩ := exhausting_tag_cases (isFull_digitRun start) .integer
    · exact .inl hfailed
    · exact .inr ⟨matched, hok, nofun, nofun⟩
  | floating =>
    have hfull : Match.IsFull ((digitRun start).skipping (m := Id) fun _ rest =>
        fractionPart rest) := (isFull_digitRun start).skipping (m := Id) rfl
    obtain hfailed | ⟨matched, -, hok⟩ := exhausting_tag_cases hfull .floating
    · exact .inl hfailed
    · exact .inr ⟨matched, hok, nofun, nofun⟩

/-- A token that is classified has a matched part together with a form, and these decide what it
denotes. -/
theorem classify_cases (token : Bytes) :
    (classify token = .failed ∧ ofToken? token = none) ∨
      ∃ matched form, classify token = .ok (some (matched, form)) [] ∧
        ofToken? token = denoted? token matched form ∧
        (form = .sixDigitColor → IsHexDigits 6 matched) ∧
        (form = .threeDigitColor → IsHexDigits 3 matched) := by
  have hfailing : classify token = .failed → ofToken? token = none := by
    intro h
    delta ofToken?
    rw [h]
  have hchoice : classify token = .failed ∨
      ∃ f ∈ branches, classify token = f (.start token) :=
    Choice.among_eq_failed_or_mem rfl branches
  obtain hfailed | ⟨f, hf, hclassify⟩ := hchoice
  · exact .inl ⟨hfailed, hfailing hfailed⟩
  · rw [branches_eq] at hf
    obtain ⟨form, -, rfl⟩ := List.mem_map.mp hf
    obtain hfailed | ⟨matched, hok, hhex⟩ := branch_cases form (.start token)
    · exact .inl ⟨hclassify.trans hfailed, hfailing (hclassify.trans hfailed)⟩
    · have hfound : classify token = .ok (some (matched, form)) [] := hclassify.trans hok
      refine .inr ⟨matched, form, hfound, ?_, hhex⟩
      delta ofToken?
      rw [hfound]

theorem exists_color_of_six (h : IsHexDigits 6 matched) :
    ∃ color, Color.ofSixDigits? matched = some color := by
  match matched, h.1 with
  | [_, _, _, _, _, _], _ => exact ⟨_, rfl⟩

theorem exists_color_of_three (h : IsHexDigits 3 matched) :
    ∃ color, Color.ofThreeDigits? matched = some color := by
  match matched, h.1 with
  | [_, _, _], _ => exact ⟨_, rfl⟩

end Value

/-! ## Headers -/

namespace Header

open Reading (text)

/-- A line is named and has a rest, or it is no header. -/
theorem named_cases (line : Bytes) :
    (named line = .failed ∧ ofLine? line = none) ∨
      ∃ name rest, named line = .ok (some name) rest ∧
        ofLine? line = some ⟨name, trimmed rest⟩ := by
  have hname : (text.takeAtLeast 1 isNameElement line).outcome.IsFull :=
    (Reading.isSplit_takeAtLeast 1 isNameElement line).isFull
  have hfull : (named line).IsFull := hname.skipping (m := Id) rfl
  obtain hfailed | ⟨name, rest, hok⟩ := hfull.cases
  · refine .inl ⟨hfailed, ?_⟩
    rw [ofLine?, hfailed]
  · refine .inr ⟨name, rest, hok, ?_⟩
    rw [ofLine?, hok]

theorem isFull_item (s : Bytes) : (item s).IsFull :=
  (Reading.isSplit_takeAtLeast 1 isItemElement s).isFull

/-- A chain that begins with the first item of a list has it as its latest part. -/
theorem isFull_last_firstItem (value : Bytes) :
    (Collector.ofMatch (firstItem value)).last.IsFull := by
  have hlast : (Collector.ofMatch (firstItem value)).last = firstItem value := by
    cases firstItem value <;> rfl
  rw [hlast]
  exact isFull_item _

/-- Every pass leaves a chain that failed or that has an item as its latest part. -/
theorem isFull_last_nextItem (c : Collector Bytes Bytes) : (nextItem c).last.IsFull := by
  let separated : Collector Bytes Bytes := c.skipping (m := Id) fun _ rest => comma rest
  have hpass : MonadAttach.CanReturn (m := Id)
      (separated.step (m := Id) fun _ rest => item rest) (nextItem c) := rfl
  obtain hfailed | ⟨kept, latest, rest, found, rest', -, hitem, hactive⟩ :=
    Collector.canReturn_step hpass
  · rw [hfailed]
    exact .failed
  · have hfull : (Match.ok found rest' : Match Bytes Bytes).IsFull := hitem ▸ isFull_item rest
    rw [hactive]
    exact hfull

/-- All passes of the loop over a list, from the first item on, do so. -/
theorem isFull_last_iterate_nextItem (value : Bytes) (i : Nat) :
    (nextItem^[i] (.ofMatch (firstItem value))).last.IsFull := by
  cases i with
  | zero => exact isFull_last_firstItem value
  | succ i =>
    rw [Function.iterate_succ_apply']
    exact isFull_last_nextItem _

/-- Every pass of the loop over a list fails, or has a latest item and a rest to look for the end
in. -/
theorem iterate_nextItem_cases (value : Bytes) (i : Nat) :
    nextItem^[i] (.ofMatch (firstItem value)) = .failed ∨
      ∃ kept found rest spaces rest',
        nextItem^[i] (.ofMatch (firstItem value)) = .active kept (some found) rest ∧
        (text.takeWhile Element.isSpace rest).outcome = .ok (some spaces) rest' ∧
        isAllSpace rest = rest'.isEmpty := by
  have hfull := isFull_last_iterate_nextItem value i
  cases hc : nextItem^[i] (.ofMatch (firstItem value)) with
  | failed => exact .inl rfl
  | active kept latest rest =>
    rw [hc] at hfull
    cases hfull with
    | ok found rest => exact .inr ⟨kept, found, rest, _, _, rfl, rfl, rfl⟩

end Header

/-! ## Lines and tokens -/

namespace Splitter

open Reading (text)

variable {content last : Bytes} {taken : List Bytes}

/-- Wherever the loop over the lines comes by, there is a line, and the line feed behind it is taken
or cut down to nothing. -/
theorem line_of_takes (hfits : content.length < UInt64.size) (h : lines.Takes content taken last)
    (hne : last ≠ []) :
    ∃ line rest feed rest',
      (text.takeWhile (fun c => !Element.isLineFeed c) last).outcome = .ok (some line) rest ∧
      text.literal (ascii "\n") .cut rest = .ok feed rest' ∧
      lines.next? last = some (line, rest') := by
  have hlast : last.length < UInt64.size := Nat.lt_of_le_of_lt h.length_le hfits
  obtain ⟨feed, hfeed⟩ := literal_lineFeed_dropWhile last
  exact ⟨_, _, feed, _, outcome_takeWhile_line hlast, hfeed, nextLine?_eq hne hlast⟩

/-- The match that the next token is taken from: a run of at least one element behind the blanks at
the front of a line. -/
def tokenMatch (line : Bytes) : Match Bytes Bytes :=
  ((text.takeWhile Element.isBlank line).outcome.onRest
    (text.takeAtLeast 1 fun c => !Element.isBlank c)).outcome

/-- A token that is matched is there, and where none is matched there is no next one. -/
theorem tokenMatch_cases (line : Bytes) :
    (tokenMatch line = .failed ∧ tokens.next? line = none) ∨
      ∃ token rest, tokenMatch line = .ok (some token) rest ∧
        tokens.next? line = some (token, rest) := by
  have hfull : (tokenMatch line).IsFull :=
    Match.isFull_onRest (fun rest => (Reading.isSplit_takeAtLeast 1 _ rest).isFull) _
  show (_ ∧ nextToken? line = none) ∨ ∃ token rest, _ ∧ nextToken? line = some (token, rest)
  obtain hfailed | ⟨token, rest, hok⟩ := hfull.cases
  · refine .inl ⟨hfailed, ?_⟩
    rw [tokenMatch] at hfailed
    simp only [nextToken?, hfailed]
  · refine .inr ⟨token, rest, hok, ?_⟩
    rw [tokenMatch] at hok
    simp only [nextToken?, hok]

end Splitter

/-! ## Reading parts -/

open Reading (text)

/-- No part is read that is not there, whatever the input is.

* A scan comes to an end. Wherever it comes by, its offset is inside the sequence, and it accepted
  no more elements than it passed units and than its limit lets. Where it ends, it cuts the
  sequence.
* A token that is classified has a matched part together with a form. The part of a color has its
  number of hexadecimal digits, and so these are decoded.
* A line that is named has a name and a rest, which make its header.
* Each pass of the loop over a list that does not fail has an item and a rest, and the spaces in
  front of that rest are taken, whether or not there are any.
* Wherever the loop over the lines comes by, a line is taken, and so is the line feed behind it, or
  nothing at the end of the text.
* A token that is matched has a matched part and a rest.
* The blanks in front of a line are taken, whether or not there are any.

Lengths are 64-bit numbers: a text that is too long for that would not be scanned to the end of its
line. -/
theorem accessed_parts_are_there :
    (∀ (α : Type) (R : Reading α) (p : Int → Bool) (limit : Nat) (s : List α),
      (∃ offset count, R.ScanReaches p limit s offset count ∧
        R.ScanEnds p limit s offset count) ∧
      ∀ offset count, R.ScanReaches p limit s offset count →
        offset ≤ s.length ∧ count ≤ min offset limit ∧
        (R.ScanEnds p limit s offset count →
          (R.scan p limit s).taken = s.take offset ∧ (R.scan p limit s).count = count ∧
            (R.scan p limit s).rest = s.drop offset)) ∧
    (∀ token : Bytes, (Value.classify token = .failed ∧ Value.ofToken? token = none) ∨
      ∃ matched form, Value.classify token = .ok (some (matched, form)) [] ∧
        Value.ofToken? token = Value.denoted? token matched form ∧
        (form = .sixDigitColor → Value.IsHexDigits 6 matched ∧
          ∃ color, Color.ofSixDigits? matched = some color) ∧
        (form = .threeDigitColor → Value.IsHexDigits 3 matched ∧
          ∃ color, Color.ofThreeDigits? matched = some color)) ∧
    (∀ line : Bytes, (Header.named line = .failed ∧ Header.ofLine? line = none) ∨
      ∃ name rest, Header.named line = .ok (some name) rest ∧
        Header.ofLine? line = some ⟨name, Header.trimmed rest⟩) ∧
    (∀ (value : Bytes) (i : Nat),
      Header.nextItem^[i] (.ofMatch (Header.firstItem value)) = .failed ∨
      ∃ kept found rest spaces rest',
        Header.nextItem^[i] (.ofMatch (Header.firstItem value)) =
          .active kept (some found) rest ∧
        (text.takeWhile Element.isSpace rest).outcome = .ok (some spaces) rest' ∧
        Header.isAllSpace rest = rest'.isEmpty) ∧
    (∀ (content : Bytes) (taken : List Bytes) (last : Bytes), content.length < 2 ^ 64 →
      Splitter.lines.Takes content taken last → last ≠ [] →
      ∃ line rest feed rest',
        (text.takeWhile (fun c => !Element.isLineFeed c) last).outcome = .ok (some line) rest ∧
        text.literal (ascii "\n") .cut rest = .ok feed rest' ∧
        Splitter.lines.next? last = some (line, rest')) ∧
    (∀ line : Bytes,
      (Splitter.tokenMatch line = .failed ∧ Splitter.tokens.next? line = none) ∨
      ∃ token rest, Splitter.tokenMatch line = .ok (some token) rest ∧
        Splitter.tokens.next? line = some (token, rest)) ∧
    ∀ line : Bytes, ∃ blanks rest,
      (text.takeWhile Element.isBlank line).outcome = .ok (some blanks) rest ∧
      Bench.Tally.isBlankLine line = rest.isEmpty := by
  refine ⟨fun α R p limit s => ⟨?_, fun offset count h => ?_⟩, fun token => ?_,
    Header.named_cases, Header.iterate_nextItem_cases, fun content taken last hfits h hne => ?_,
    Splitter.tokenMatch_cases, fun line => ⟨_, _, rfl, rfl⟩⟩
  · exact Reading.exists_scanReaches_ends R p limit s
  · exact ⟨h.bounds.1, h.bounds.2, h.scan_eq_of_ends⟩
  · obtain hfailed | ⟨matched, form, hok, hvalue, hsix, hthree⟩ := Value.classify_cases token
    · exact .inl hfailed
    · refine .inr ⟨matched, form, hok, hvalue, fun hform => ?_, fun hform => ?_⟩
      · exact ⟨hsix hform, Value.exists_color_of_six (hsix hform)⟩
      · exact ⟨hthree hform, Value.exists_color_of_three (hthree hform)⟩
  · exact Splitter.line_of_takes hfits h hne

/-- A scan for one element ends behind a euro sign, colors have their digits, and behind a line that
ends inside a character there is another one, without a line feed. -/
theorem accessed_parts_are_there_truncated :
    (text.scan (fun c => 0x80 ≤ c) 1 [0xE2, 0x82, 0xAC, 0xAC]).taken = [0xE2, 0x82, 0xAC] ∧
    Value.IsHexDigits 6 (ascii "09afAF") ∧ Value.IsHexDigits 3 (ascii "1aF") ∧
    Splitter.lines.Takes [0xE2, 0x0A, 0xC3] [[0xE2]] [0xC3] ∧
    ∃ line rest feed rest',
      (text.takeWhile (fun c => !Element.isLineFeed c) [0xC3]).outcome = .ok (some line) rest ∧
      text.literal (ascii "\n") .cut rest = .ok feed rest' ∧
      Splitter.lines.next? [0xC3] = some (line, rest') := by
  obtain ⟨hscans, htokens, -, -, hlines, -, -⟩ := accessed_parts_are_there
  have htakes : Splitter.lines.Takes [0xE2, 0x0A, 0xC3] [[0xE2]] [0xC3] :=
    .next (by decide) (.done _)
  refine ⟨?_, ?_, ?_, htakes, hlines _ _ _ (by decide) htakes (by decide)⟩
  · have hreaches : text.ScanReaches (fun c => 0x80 ≤ c) 1 [0xE2, 0x82, 0xAC, 0xAC] 3 1 :=
      Reading.ScanReaches.accept (d := ⟨0x20AC, 2⟩) .start (by decide) (by decide) (by decide)
    have hends : text.ScanEnds (fun c => 0x80 ≤ c) 1 [0xE2, 0x82, 0xAC, 0xAC] 3 1 :=
      fun d hlimit _ => absurd hlimit (by decide)
    exact (((hscans UInt8 text _ _ _).2 3 1 hreaches).2.2 hends).1
  · have hcolor : Value.classify (ascii "#09afAF") =
        .ok (some (ascii "09afAF", .sixDigitColor)) [] := by decide
    obtain ⟨hfailed, -⟩ | ⟨matched, form, hok, -, hsix, -⟩ := htokens (ascii "#09afAF")
    · cases hcolor.symm.trans hfailed
    · cases hcolor.symm.trans hok
      exact (hsix rfl).1
  · have hcolor : Value.classify (ascii "#1aF") =
        .ok (some (ascii "1aF", .threeDigitColor)) [] := by decide
    obtain ⟨hfailed, -⟩ | ⟨matched, form, hok, -, -, hthree⟩ := htokens (ascii "#1aF")
    · cases hcolor.symm.trans hfailed
    · cases hcolor.symm.trans hok
      exact (hthree rfl).1

end PrefixMatching
