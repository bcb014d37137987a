import PrefixMatching.Proofs.Choice
import PrefixMatching.Proofs.Utf8.Runs
import PrefixMatching.Proofs.Value.Grammar

/-!
# Tokens are scanned as the grammar says

Each branch of the choice accepts the texts of the trees of its form, and no others (`branch_text`,
`exists_token_of_branch`). As a text has trees of one form only, at most one branch matches
(`pairwise_exclude_branches`), and the order of the branches does not matter.

Both directions follow the grammar: a run of digits ends where no digit stands, and what ends the
runs of a tree is its point, the mark of its exponent or the end of the token.
-/

namespace PrefixMatching

open Reading (text)

/-! ## One of several bytes -/

namespace Reading

variable {b : UInt8} {marks u : Bytes}

theorem anyLiteralFrom_of_mem (hb : b.toNat < 0x80) (hmem : b ∈ marks) (index : Nat) :
    ∃ found, text.anyLiteralFrom .whole (b :: u) index (marks.map ([·])) = .ok found u := by
  induction marks generalizing index with
  | nil => cases hmem
  | cons mark marks ih =>
    rw [List.map_cons, anyLiteralFrom]
    by_cases hmark : b = mark
    · rw [← hmark, literal_byte_cons hb]
      exact ⟨_, rfl⟩
    · rw [literal_byte_of_ne hmark]
      exact ih (List.mem_of_ne_of_mem hmark hmem) (index + 1)

theorem anyLiteralFrom_of_head (h : ∀ b ∈ u.head?, b ∉ marks) (index : Nat) :
    text.anyLiteralFrom .whole u index (marks.map ([·])) = .failed := by
  induction marks generalizing index with
  | nil => rfl
  | cons mark marks ih =>
    have hfirst : text.literal [mark] .whole u = .failed := by
      cases u with
      | nil => exact literal_byte_nil
      | cons b u => exact literal_byte_of_ne fun heq => h b rfl (by simp [heq])
    rw [List.map_cons, anyLiteralFrom, hfirst]
    exact ih (fun b hb hmem => h b hb (List.mem_cons_of_mem _ hmem)) (index + 1)

/-- One of several ASCII characters is matched where it stands. -/
theorem anyLiteral_of_mem (hb : b.toNat < 0x80) (hmem : b ∈ marks) :
    ∃ found, text.anyLiteral (marks.map ([·])) .whole (b :: u) = .ok found u :=
  anyLiteralFrom_of_mem hb hmem 0

/-- Where none of them stands nothing is matched. -/
theorem anyLiteral_of_head (h : ∀ b ∈ u.head?, b ∉ marks) :
    text.anyLiteral (marks.map ([·])) .whole u = .failed :=
  anyLiteralFrom_of_head h 0

end Reading

namespace Value

variable {μ : Type} {token s u rest : Bytes} {matched : Option μ} {part : Option Bytes}
  {form form' : TokenForm}

/-! ## Whole tokens -/

/-- A match counts if it took the whole token. -/
theorem exhausting_ok (matched : Option μ) (rest : Bytes) :
    exhausting (.ok matched rest) = if rest = [] then .ok matched rest else .failed := by
  show (if rest.isEmpty then Match.ok matched rest else .failed) = _
  simp only [List.isEmpty_iff]

theorem exists_of_exhausting {x : Match μ Bytes} (h : (exhausting x).isFailed = false) :
    ∃ matched, x = .ok matched [] := by
  cases x with
  | failed => cases h
  | ok matched rest =>
    rw [exhausting_ok] at h
    by_cases hrest : rest = []
    · exact ⟨matched, by rw [hrest]⟩
    · rw [if_neg hrest] at h
      cases h

theorem tag_eq_ok {x : Match Bytes Bytes} {found : Option (Bytes × TokenForm)}
    (h : x.tag form = .ok found rest) : ∃ part, x = .ok part rest := by
  cases x with
  | failed => cases h
  | ok part rest' =>
    obtain ⟨-, rfl⟩ := Match.ok.inj h
    exact ⟨part, rfl⟩

/-! ## Colors -/

/-- A number sign and a number of hexadecimal digits. -/
def asColor (n : Nat) (form : TokenForm) (start : Match Bytes Bytes) :
    Match (Bytes × TokenForm) Bytes :=
  exhausting
    ((((numberSign start).onRest (text.takeExactly n Element.isHexDigit)).outcome).tag form)

theorem numberSign_start (s : Bytes) : numberSign (.start s) = text.literal [0x23] .cut s := rfl

/-- Hexadecimal digits behind a number sign are a color if their number is right. -/
theorem asColor_hex (hex : List HexDigit) (hfits : hex.length < UInt64.size) (form : TokenForm) :
    asColor hex.length form (.start (0x23 :: hex.map HexDigit.byte)) =
      .ok (some (hex.map HexDigit.byte, form)) [] := by
  have hsign : text.literal [0x23] .cut (0x23 :: hex.map HexDigit.byte) =
      .ok (some [0x23]) (hex.map HexDigit.byte) := Reading.literal_byte_cons (by decide)
  have hrun : (hex.map HexDigit.byte).takeWhile (fun b => Element.isHexDigit b.toNat) =
      hex.map HexDigit.byte := by
    rw [List.takeWhile_eq_self_iff]
    intro b hb
    obtain ⟨d, -, rfl⟩ := List.mem_map.mp hb
    exact d.isHexDigit_byte
  have hdigits : (text.takeExactly hex.length Element.isHexDigit (hex.map HexDigit.byte)).outcome =
      .ok (some (hex.map HexDigit.byte)) [] := by
    rw [Reading.outcome_text_takeExactly Element.isUniform_isHexDigit hfits, hrun,
      List.length_map, if_pos (le_refl _), List.take_of_length_le (by simp),
      List.drop_of_length_le (by simp)]
  rw [asColor, numberSign_start, hsign]
  dsimp only [Match.onRest]
  rw [hdigits]
  rfl

/-- Whether a text consists of `n` hexadecimal digits. -/
def IsHexDigits (n : Nat) (s : Bytes) : Prop :=
  s.length = n ∧ ∀ b ∈ s, Element.isHexDigit b.toNat = true

/-- An exact number of elements that are hexadecimal digits is that number of bytes. -/
theorem isHexDigits_of_takeExactly {n : Nat} {digits : Bytes} (hn : n < UInt64.size)
    (h : (text.takeExactly n Element.isHexDigit s).outcome = .ok (some digits) rest) :
    IsHexDigits n digits := by
  rw [Reading.outcome_text_takeExactly Element.isUniform_isHexDigit hn] at h
  have hrun := List.takeWhile_prefix (l := s) fun b => Element.isHexDigit b.toNat
  by_cases hlong : n ≤ (s.takeWhile fun b => Element.isHexDigit b.toNat).length
  · rw [if_pos hlong] at h
    obtain ⟨⟨rfl⟩, -⟩ := Match.ok.inj h
    have hlength : (s.take n).length = n :=
      List.length_take_of_le (hlong.trans hrun.length_le)
    refine ⟨hlength, fun b hb => ?_⟩
    -- what is taken is no longer than the run of digits, and so a part of it
    have hpart := List.prefix_of_prefix_length_le (List.take_prefix n s) hrun (by omega)
    have hdigit := List.mem_takeWhile_imp (hpart.mem hb)
    exact hdigit
  · rw [if_neg hlong] at h
    cases h

/-- An exact number of hexadecimal digits with nothing behind them is the text of digits. -/
theorem exists_hex_of_takeExactly {n : Nat} (hn : n < UInt64.size)
    (h : (text.takeExactly n Element.isHexDigit s).outcome = .ok part []) :
    ∃ hex : List HexDigit, hex.length = n ∧ hex.map HexDigit.byte = s := by
  have hwhole : part = some s := by
    obtain hfailed | ⟨k, -, hsplit⟩ :=
      Reading.isSplit_takeBetween (R := text) n n Element.isHexDigit s
    · cases h.symm.trans hfailed
    · obtain ⟨rfl, hrest⟩ := Match.ok.inj (h.symm.trans hsplit)
      rw [List.take_of_length_le (List.drop_eq_nil_iff.mp hrest.symm)]
  rw [hwhole] at h
  obtain ⟨hlength, hdigits⟩ := isHexDigits_of_takeExactly hn h
  have hrange : s ∈ Set.range (List.map HexDigit.byte) := by
    rw [Set.range_list_map]
    exact fun b hb => HexDigit.mem_range_byte (hdigits b hb)
  obtain ⟨hex, rfl⟩ := hrange
  rw [List.length_map] at hlength
  exact ⟨hex, hlength, rfl⟩

/-- What is accepted as a color is a number sign and hexadecimal digits. -/
theorem exists_hex_of_asColor {n : Nat} (hpos : 0 < n) (hn : n < UInt64.size)
    (h : (asColor n form (.start token)).isFailed = false) :
    ∃ hex : List HexDigit, hex.length = n ∧ 0x23 :: hex.map HexDigit.byte = token := by
  obtain ⟨_, htag⟩ := exists_of_exhausting h
  obtain ⟨part, hdigits⟩ := tag_eq_ok htag
  rw [numberSign_start] at hdigits
  cases token with
  | nil =>
    -- the number sign is cut down to nothing, and no digit follows
    have hsign : text.literal [0x23] .cut [] = .ok (some []) [] := rfl
    rw [hsign] at hdigits
    obtain ⟨hex, hlength, hbytes⟩ := exists_hex_of_takeExactly hn hdigits
    have hnone : hex.length = 0 := by simpa using congrArg List.length hbytes
    omega
  | cons b digits =>
    by_cases hb : b = 0x23
    · have hsign : text.literal [0x23] .cut (0x23 :: digits) = .ok (some [0x23]) digits :=
        Reading.literal_byte_cons (by decide)
      rw [hb, hsign] at hdigits
      obtain ⟨hex, hlength, hbytes⟩ := exists_hex_of_takeExactly hn hdigits
      exact ⟨hex, hlength, by rw [hbytes, hb]⟩
    · have hsign : text.literal [0x23] .cut (b :: digits) = .failed :=
        Reading.literal_byte_of_ne hb
      rw [hsign] at hdigits
      cases hdigits

/-! ## Runs of digits -/

theorem digitRun_ok (hs : s.length < UInt64.size) (matched : Option μ) :
    digitRun (.ok matched s) =
      if s.takeWhile isDigitByte = [] then .failed
      else .ok (some (s.takeWhile isDigitByte)) (s.dropWhile isDigitByte) := by
  have hdecides : text.DecidesByUnit Element.isDigit isDigitByte :=
    Element.isUniform_isDigit.decidesByUnit
  exact Reading.outcome_takeAtLeast_one hdecides hs

section Runs

variable (digits : Digits) (hrest : ∀ b ∈ rest.head?, isDigitByte b = false)
include hrest

/-- A run of digits ends where no digit stands. -/
theorem takeWhile_digitsText_append :
    (digitsText digits.list ++ rest).takeWhile isDigitByte = digitsText digits.list := by
  have hall : ∀ b ∈ digitsText digits.list, isDigitByte b = true := fun b hb =>
    isDigitByte_of_mem hb
  rw [takeWhile_append_of_head hrest, List.takeWhile_eq_self_iff.mpr hall]

theorem dropWhile_digitsText_append :
    (digitsText digits.list ++ rest).dropWhile isDigitByte = rest := by
  have hall : ∀ b ∈ digitsText digits.list, isDigitByte b = true := fun b hb =>
    isDigitByte_of_mem hb
  rw [dropWhile_append_of_head hrest, List.dropWhile_eq_nil_iff.mpr hall, List.nil_append]

theorem digitRun_digits (hs : (digitsText digits.list ++ rest).length < UInt64.size)
    (matched : Option μ) :
    digitRun (.ok matched (digitsText digits.list ++ rest)) =
      .ok (some (digitsText digits.list)) rest := by
  have hne : digitsText digits.list ≠ [] := by simpa [digitsText] using digits.ne_nil
  rw [digitRun_ok hs, takeWhile_digitsText_append digits hrest,
    dropWhile_digitsText_append digits hrest, if_neg hne]

end Runs

theorem digitRun_digits_end (digits : Digits) (hs : (digitsText digits.list).length < UInt64.size)
    (matched : Option μ) :
    digitRun (.ok matched (digitsText digits.list)) = .ok (some (digitsText digits.list)) [] := by
  have hend : ∀ b ∈ ([] : Bytes).head?, isDigitByte b = false := nofun
  have hrun := digitRun_digits digits hend (by rwa [List.append_nil]) matched
  rwa [List.append_nil] at hrun

/-- What is taken as a run of digits is the text of digits. -/
theorem exists_digits_of_digitRun (hs : s.length < UInt64.size)
    (h : digitRun (.ok matched s) = .ok part rest) :
    ∃ digits : Digits, digitsText digits.list ++ rest = s := by
  rw [digitRun_ok hs] at h
  by_cases hempty : s.takeWhile isDigitByte = []
  · rw [if_pos hempty] at h
    cases h
  · rw [if_neg hempty] at h
    obtain ⟨-, rfl⟩ := Match.ok.inj h
    obtain ⟨digits, hdigits⟩ := exists_digitsText_eq hempty fun b hb => List.mem_takeWhile_imp hb
    exact ⟨digits, by rw [hdigits, List.takeWhile_append_dropWhile]⟩

/-! ## Exponents -/

/-- The marks that begin an exponent. -/
def marks : Bytes := [0x65, 0x45]

/-- The signs that an exponent can have. -/
def signs : Bytes := [0x2B, 0x2D]

/-- What follows the sign of an exponent, if it has one. -/
def afterSign : Bytes → Bytes
  | [] => []
  | b :: u => if b ∈ signs then u else b :: u

theorem length_afterSign_le (u : Bytes) : (afterSign u).length ≤ u.length := by
  cases u with
  | nil => exact le_refl _
  | cons b u =>
    rw [afterSign]
    split
    · exact Nat.le_succ _
    · exact le_refl _

theorem exists_sign_append_afterSign (u : Bytes) :
    ∃ sign : Option Sign, (sign.map Sign.byte).toList ++ afterSign u = u := by
  cases u with
  | nil => exact ⟨none, rfl⟩
  | cons b u =>
    by_cases hmem : b ∈ signs
    · rw [afterSign, if_pos hmem]
      simp only [signs, List.mem_cons, List.not_mem_nil, or_false] at hmem
      rcases hmem with rfl | rfl
      · exact ⟨some .plus, rfl⟩
      · exact ⟨some .minus, rfl⟩
    · rw [afterSign, if_neg hmem]
      exact ⟨none, rfl⟩

/-- Behind its mark, an exponent is a run of digits with a sign that may be missing. -/
theorem exponentPart_of_mark {mark : UInt8} (hmark : mark ∈ marks) (u : Bytes) :
    ∃ matched : Option (Bytes × Nat),
      exponentPart (mark :: u) = digitRun (.ok matched (afterSign u)) := by
  have hascii : ∀ b ∈ marks ++ signs, b.toNat < 0x80 := by simp [marks, signs]
  obtain ⟨found, hfound⟩ : ∃ found, text.anyLiteral [ascii "e", ascii "E"] .whole (mark :: u) =
      .ok found u := Reading.anyLiteral_of_mem (hascii mark (by simp [hmark])) hmark
  refine ⟨none, ?_⟩
  simp only [exponentPart, hfound, Match.onRest]
  by_cases hsign : ∀ b ∈ u.head?, b ∉ signs
  · have hnone : text.anyLiteral [ascii "+", ascii "-"] .whole u = .failed :=
      Reading.anyLiteral_of_head hsign
    have hsame : afterSign u = u := by
      cases u with
      | nil => rfl
      | cons b u => rw [afterSign, if_neg (hsign b rfl)]
    rw [hnone, hsame]
    rfl
  · obtain ⟨sign, hhead, hmem⟩ : ∃ b ∈ u.head?, b ∈ signs := by simpa using hsign
    obtain ⟨rest, rfl⟩ := List.head?_eq_some_iff.mp hhead
    obtain ⟨found', hfound'⟩ : ∃ found, text.anyLiteral [ascii "+", ascii "-"] .whole
        (sign :: rest) = .ok found rest :=
      Reading.anyLiteral_of_mem (hascii sign (by simp [hmem])) hmem
    rw [hfound', afterSign, if_pos hmem]
    rfl

theorem exponentPart_of_head (h : ∀ b ∈ s.head?, b ∉ marks) : exponentPart s = .failed := by
  have hnone : text.anyLiteral [ascii "e", ascii "E"] .whole s = .failed :=
    Reading.anyLiteral_of_head h
  simp only [exponentPart, hnone]
  rfl

/-- A digit is no sign. -/
theorem not_mem_signs_of_isDigitByte {b : UInt8} (hb : isDigitByte b = true) : b ∉ signs := by
  have hplus : isDigitByte 0x2B = false := by decide
  have hminus : isDigitByte 0x2D = false := by decide
  intro hmem
  simp only [signs, List.mem_cons, List.not_mem_nil, or_false] at hmem
  rcases hmem with rfl | rfl
  · simp [hplus] at hb
  · simp [hminus] at hb

theorem exponentPart_text (e : Exponent) (hfits : e.text.length < UInt64.size) :
    exponentPart e.text = .ok (some (digitsText e.digits.list)) [] := by
  have hmark : (if e.lower then 0x65 else 0x45) ∈ marks := by split <;> decide
  obtain ⟨matched, hpart⟩ := exponentPart_of_mark hmark
    ((e.sign.map Sign.byte).toList ++ digitsText e.digits.list)
  have hafter : afterSign ((e.sign.map Sign.byte).toList ++ digitsText e.digits.list) =
      digitsText e.digits.list := by
    cases hsign : e.sign with
    | none =>
      obtain ⟨d, more, hlist⟩ := List.exists_cons_of_ne_nil e.digits.ne_nil
      have hdigit : digit d ∉ signs := not_mem_signs_of_isDigitByte (isDigitByte_digit d)
      rw [hlist]
      exact if_neg hdigit
    | some sign => cases sign <;> rfl
  have hdigits : (digitsText e.digits.list).length < UInt64.size := by
    rw [Exponent.text, List.length_cons, List.length_append] at hfits
    omega
  rw [Exponent.text, hpart, hafter, digitRun_digits_end e.digits hdigits]

theorem exists_exponent_of_exponentPart (hs : s.length < UInt64.size)
    (h : exponentPart s = .ok part []) : ∃ e : Exponent, e.text = s := by
  by_cases hhead : ∀ b ∈ s.head?, b ∉ marks
  · rw [exponentPart_of_head hhead] at h
    cases h
  · obtain ⟨mark, hmem, hmark⟩ : ∃ b ∈ s.head?, b ∈ marks := by simpa using hhead
    obtain ⟨u, rfl⟩ := List.head?_eq_some_iff.mp hmem
    obtain ⟨matched, hpart⟩ := exponentPart_of_mark hmark u
    -- an exponent is read back from its mark, its sign and its digits
    have hfits : (afterSign u).length < UInt64.size := by
      have hle := length_afterSign_le u
      rw [List.length_cons] at hs
      omega
    rw [hpart] at h
    obtain ⟨digits, hdigits⟩ := exists_digits_of_digitRun hfits h
    rw [List.append_nil] at hdigits
    obtain ⟨sign, hsign⟩ := exists_sign_append_afterSign u
    obtain ⟨lower, hlower⟩ : ∃ lower : Bool, (if lower then 0x65 else 0x45) = mark := by
      simp only [marks, List.mem_cons, List.not_mem_nil, or_false] at hmark
      rcases hmark with rfl | rfl
      · exact ⟨true, rfl⟩
      · exact ⟨false, rfl⟩
    exact ⟨⟨lower, sign, digits⟩, by rw [Exponent.text, hlower, hdigits, hsign]⟩

/-! ## Fractions and numbers -/

/-- What follows the first digits of a number is its point. -/
theorem not_isDigitByte_point : ∀ b ∈ (0x2E :: s : Bytes).head?, isDigitByte b = false := by
  intro b hb
  rw [← Option.some.inj hb]
  decide

/-- What follows the digits of a fraction: an exponent, or nothing. -/
theorem not_isDigitByte_of_mem_head? (exponent : Option Exponent) :
    ∀ b ∈ (Token.exponentText exponent).head?, isDigitByte b = false := by
  intro b hb
  cases exponent with
  | none => cases hb
  | some e =>
    have hmark : (if e.lower then 0x65 else 0x45) = b := Option.some.inj hb
    rw [← hmark]
    split <;> decide

theorem fractionPart_text (fraction : Digits) (exponent : Option Exponent)
    (hfits : (digitsText fraction.list ++ Token.exponentText exponent).length < UInt64.size) :
    ∃ part, fractionPart (0x2E :: (digitsText fraction.list ++ Token.exponentText exponent)) =
      .ok part [] := by
  have hpoint : text.literal (ascii ".") .whole
      (0x2E :: (digitsText fraction.list ++ Token.exponentText exponent)) =
        .ok (some [0x2E]) (digitsText fraction.list ++ Token.exponentText exponent) :=
    Reading.literal_byte_cons (by decide)
  have hrun := digitRun_digits fraction (not_isDigitByte_of_mem_head? exponent) hfits
    (some ([0x2E] : Bytes))
  rw [fractionPart, hpoint, hrun]
  simp only [Match.attempt, pure, bind]
  cases exponent with
  | none =>
    have hnone : exponentPart (Token.exponentText none) = .failed := exponentPart_of_head nofun
    rw [hnone]
    exact ⟨_, rfl⟩
  | some e =>
    have hexponent : exponentPart (Token.exponentText (some e)) =
        .ok (some (digitsText e.digits.list)) [] := by
      refine exponentPart_text e ?_
      rw [List.length_append] at hfits
      have hle : e.text.length ≤ (Token.exponentText (some e)).length := le_refl _
      omega
    rw [hexponent]
    exact ⟨_, rfl⟩

theorem exists_of_fractionPart (hs : s.length < UInt64.size) (h : fractionPart s = .ok part []) :
    ∃ (fraction : Digits) (exponent : Option Exponent),
      0x2E :: (digitsText fraction.list ++ Token.exponentText exponent) = s := by
  have hstart : ∃ u, s = 0x2E :: u := by
    cases s with
    | nil =>
      have hpoint : text.literal (ascii ".") .whole [] = .failed := Reading.literal_byte_nil
      rw [fractionPart, hpoint] at h
      cases h
    | cons b u =>
      by_cases hb : b = 0x2E
      · exact ⟨u, by rw [hb]⟩
      · have hpoint : text.literal (ascii ".") .whole (b :: u) = .failed :=
          Reading.literal_byte_of_ne hb
        rw [fractionPart, hpoint] at h
        cases h
  obtain ⟨u, rfl⟩ := hstart
  rw [List.length_cons] at hs
  have hpoint : text.literal (ascii ".") .whole (0x2E :: u) = .ok (some [0x2E]) u :=
    Reading.literal_byte_cons (by decide)
  rw [fractionPart, hpoint] at h
  cases hrun : digitRun (.ok (some ([0x2E] : Bytes)) u) with
  | failed =>
    rw [hrun] at h
    cases h
  | ok digits rest =>
    obtain ⟨fraction, rfl⟩ := exists_digits_of_digitRun (by omega) hrun
    rw [List.length_append] at hs
    rw [hrun] at h
    simp only [Match.attempt, pure, bind] at h
    -- an exponent that is not there leaves nothing behind the fraction
    cases hexponent : exponentPart rest with
    | failed =>
      rw [hexponent] at h
      obtain ⟨-, rfl⟩ := Match.ok.inj h
      exact ⟨fraction, none, rfl⟩
    | ok found after =>
      rw [hexponent] at h
      obtain ⟨-, rfl⟩ := Match.ok.inj h
      obtain ⟨e, rfl⟩ := exists_exponent_of_exponentPart (by omega) hexponent
      exact ⟨fraction, some e, rfl⟩

/-! ## Branches -/

/-- The branch for a form. -/
def branch : TokenForm → Match Bytes Bytes → Match (Bytes × TokenForm) Bytes
  | .sixDigitColor => asSixDigitColor
  | .threeDigitColor => asThreeDigitColor
  | .integer => asInteger
  | .floating => asFloating

theorem branches_eq :
    branches = [.sixDigitColor, .threeDigitColor, .integer, .floating].map branch := rfl

theorem mem_branches (form : TokenForm) : branch form ∈ branches := by
  rw [branches_eq]
  exact List.mem_map_of_mem (by cases form <;> decide)

/-- The branch for the form of a token accepts its text. -/
theorem branch_text (t : Token) (hfits : t.text.length < UInt64.size) :
    branch t.form (.start t.text) = .ok (some (t.leading, t.form)) [] := by
  cases t with
  | sixDigitColor r₁ r₂ g₁ g₂ b₁ b₂ =>
    exact asColor_hex [r₁, r₂, g₁, g₂, b₁, b₂] (show 6 < UInt64.size by decide) .sixDigitColor
  | threeDigitColor r g b =>
    exact asColor_hex [r, g, b] (show 3 < UInt64.size by decide) .threeDigitColor
  | integer digits =>
    have hrun : digitRun (.start (digitsText digits.list) : Match Bytes Bytes) =
        .ok (some (digitsText digits.list)) [] := digitRun_digits_end digits hfits none
    show exhausting ((digitRun (.start (digitsText digits.list) : Match Bytes Bytes)).tag _) = _
    rw [hrun]
    rfl
  | floating integral fraction exponent =>
    have hrun := digitRun_digits integral not_isDigitByte_point hfits (none : Option Bytes)
    have htail : (digitsText fraction.list ++ Token.exponentText exponent).length <
        UInt64.size := by
      rw [Token.text, List.length_append, List.length_cons] at hfits
      omega
    obtain ⟨part, hfraction⟩ := fractionPart_text fraction exponent htail
    simp only [branch, Token.form, Token.text, Token.leading, asFloating, Match.start, hrun,
      Match.skipping, hfraction, pure, bind]
    rfl

/-- What the branch for a form accepts is the text of a token of that form. -/
theorem exists_token_of_branch (hfits : token.length < UInt64.size)
    (h : (branch form (.start token)).isFailed = false) :
    ∃ t : Token, t.form = form ∧ t.text = token := by
  cases form with
  | sixDigitColor =>
    obtain ⟨hex, hlength, rfl⟩ := exists_hex_of_asColor (show 0 < 6 by decide) (by decide) h
    exact Token.exists_of_length_six hlength
  | threeDigitColor =>
    obtain ⟨hex, hlength, rfl⟩ := exists_hex_of_asColor (show 0 < 3 by decide) (by decide) h
    exact Token.exists_of_length_three hlength
  | integer =>
    obtain ⟨_, htag⟩ := exists_of_exhausting h
    obtain ⟨part, hrun⟩ := tag_eq_ok htag
    obtain ⟨digits, hdigits⟩ := exists_digits_of_digitRun hfits hrun
    rw [List.append_nil] at hdigits
    exact ⟨.integer digits, rfl, hdigits⟩
  | floating =>
    obtain ⟨_, htag⟩ := exists_of_exhausting h
    obtain ⟨part, hskipped⟩ := tag_eq_ok htag
    cases hrun : digitRun (.start token : Match Bytes Bytes) with
    | failed =>
      rw [hrun] at hskipped
      cases hskipped
    | ok found rest =>
      obtain ⟨integral, rfl⟩ := exists_digits_of_digitRun hfits hrun
      rw [List.length_append] at hfits
      rw [hrun] at hskipped
      simp only [Match.skipping, pure, bind] at hskipped
      cases hfraction : fractionPart rest with
      | failed =>
        rw [hfraction] at hskipped
        cases hskipped
      | ok _ after =>
        rw [hfraction] at hskipped
        obtain ⟨-, rfl⟩ := Match.ok.inj hskipped
        obtain ⟨fraction, exponent, rfl⟩ := exists_of_fractionPart (by omega) hfraction
        exact ⟨.floating integral fraction exponent, rfl, rfl⟩

/-- At most one branch accepts a token. -/
theorem pairwise_exclude_branches (hfits : token.length < UInt64.size) :
    branches.Pairwise (Choice.Exclude (.start token)) := by
  have hforms : [TokenForm.sixDigitColor, .threeDigitColor, .integer, .floating].Pairwise
      (· ≠ ·) := by decide
  rw [branches_eq]
  refine hforms.map branch fun form form' hne => ?_
  by_contra hboth
  simp only [Choice.Exclude, not_or, Bool.not_eq_true] at hboth
  obtain ⟨t, rfl, htext⟩ := exists_token_of_branch hfits hboth.1
  obtain ⟨t', rfl, htext'⟩ := exists_token_of_branch hfits hboth.2
  rw [t.form_eq_formOf, t'.form_eq_formOf, htext, htext'] at hne
  exact hne rfl

theorem classify_text (t : Token) (hfits : t.text.length < UInt64.size) :
    classify t.text = .ok (some (t.leading, t.form)) [] := by
  have hbranch := branch_text t hfits
  have hmatches : (branch t.form (.start t.text)).isFailed = false := by rw [hbranch]; rfl
  rw [← hbranch]
  exact Choice.among_eq_of_mem rfl (pairwise_exclude_branches hfits) (mem_branches t.form) hmatches

theorem classify_of_forall_ne (hfits : token.length < UInt64.size)
    (h : ∀ t : Token, t.text ≠ token) : classify token = .failed := by
  refine Choice.among_eq_failed rfl fun f hf => ?_
  rw [branches_eq] at hf
  obtain ⟨form, -, rfl⟩ := List.mem_map.mp hf
  by_contra hmatches
  obtain ⟨t, -, htext⟩ := exists_token_of_branch hfits (Bool.not_eq_true _ ▸ hmatches)
  exact h t htext

/-! ## Values -/

theorem component_byte (high low : HexDigit) :
    Color.component high.byte low.byte = UInt8.ofNat (16 * high.value + low.value) := by
  rw [Color.component, high.hexValue_byte, low.hexValue_byte]

theorem component_byte_self (d : HexDigit) :
    Color.component d.byte d.byte = UInt8.ofNat (17 * d.value) := by
  have hsum : 16 * d.value.val + d.value.val = 17 * d.value.val := by omega
  rw [component_byte, hsum]

/-- The exponent behind its mark has the value of its tree. -/
theorem exponentValue_text (exponent : Option Exponent) :
    exponentValue ((Token.exponentText exponent).drop 1) =
      (exponent.map Exponent.value).getD 0 := by
  cases exponent with
  | none => rfl
  | some e =>
    show exponentValue ((e.sign.map Sign.byte).toList ++ digitsText e.digits.list) = e.value
    unfold Exponent.value
    cases hsign : e.sign with
    | none =>
      obtain ⟨d, more, hlist⟩ := List.exists_cons_of_ne_nil e.digits.ne_nil
      have hdigit : digit d ∉ signs := not_mem_signs_of_isDigitByte (isDigitByte_digit d)
      have hminus : digit d ≠ byte '-' := fun heq => hdigit (by rw [heq]; decide)
      have hplus : digit d ≠ byte '+' := fun heq => hdigit (by rw [heq]; decide)
      have htext : digitsText e.digits.list = digit d :: digitsText more := by rw [hlist]; rfl
      simp only [Option.map_none, Option.toList_none, List.nil_append]
      rw [← digitsValue_digitsText, htext, exponentValue, if_neg hminus, if_neg hplus]
    | some sign =>
      rw [← digitsValue_digitsText]
      cases sign <;> rfl

theorem decimalOf_text (integral fraction : Digits) (exponent : Option Exponent) :
    decimalOf (Token.text (.floating integral fraction exponent)) =
      Token.decimal integral fraction exponent := by
  have hend := not_isDigitByte_of_mem_head? exponent
  have happend : digitsText integral.list ++ digitsText fraction.list =
      digitsText (integral.list ++ fraction.list) := List.map_append.symm
  have hlength : (digitsText fraction.list).length = fraction.list.length := List.length_map _
  simp only [decimalOf, Token.text, Token.leading,
    takeWhile_digitsText_append integral not_isDigitByte_point,
    dropWhile_digitsText_append integral not_isDigitByte_point, List.drop_succ_cons, List.drop_zero,
    takeWhile_digitsText_append fraction hend, dropWhile_digitsText_append fraction hend,
    exponentValue_text, happend, digitsValue_digitsText, hlength]
  rfl

/-- A token denotes the value of its tree. -/
theorem denoted?_text (t : Token) : denoted? t.text t.leading t.form = t.value? := by
  cases t with
  | sixDigitColor r₁ r₂ g₁ g₂ b₁ b₂ =>
    simp only [denoted?, Token.form, Token.leading, Token.value?, List.map_cons, List.map_nil,
      Color.ofSixDigits?, component_byte, Option.map_some]
  | threeDigitColor r g b =>
    simp only [denoted?, Token.form, Token.leading, Token.value?, List.map_cons, List.map_nil,
      Color.ofThreeDigits?, component_byte_self, Option.map_some]
  | integer digits =>
    have hsize : UInt64.size = 2 ^ 64 := rfl
    simp only [denoted?, Token.form, Token.leading, Token.value?, integer?,
      digitsValue_digitsText, hsize]
    split <;> rfl
  | floating integral fraction exponent =>
    simp only [denoted?, Token.form, Token.value?, decimalOf_text]

theorem ofToken?_text (t : Token) (hfits : t.text.length < UInt64.size) :
    ofToken? t.text = t.value? := by
  delta ofToken?
  rw [classify_text t hfits]
  exact denoted?_text t

/-- A token is decoded exactly as the grammar says, in whatever order the branches are offered.

* The text of a tree is classified by the form of the tree, and denotes its value.
* Any other token denotes nothing.
* At most one branch matches, so every order of the branches gives the same result. -/
theorem tokens_are_decoded_by_grammar (token : Bytes) (hfits : token.length < 2 ^ 64) :
    (∀ t : Token, t.text = token →
      classify token = .ok (some (t.leading, t.form)) [] ∧ ofToken? token = t.value?) ∧
    ((∀ t : Token, t.text ≠ token) → ofToken? token = none) ∧
    (branches.Pairwise fun f g =>
      (f (.start token)).isFailed = true ∨ (g (.start token)).isFailed = true) ∧
    ∀ order, order.Perm branches →
      Choice.among (m := Id) (.start token) order = classify token := by
  have hexclude := pairwise_exclude_branches (show token.length < UInt64.size from hfits)
  refine ⟨?_, ?_, hexclude, fun order hperm => Choice.among_perm rfl hexclude hperm⟩
  · rintro t rfl
    have hclass := classify_text t hfits
    refine ⟨hclass, ?_⟩
    delta ofToken?
    rw [hclass]
    exact denoted?_text t
  · intro hother
    delta ofToken?
    rw [classify_of_forall_ne hfits hother]

/-- A color with digits of both cases, and the empty token, which is cut off before its number sign
and denotes nothing. -/
theorem tokens_are_decoded_by_grammar_color :
    ofToken? (ascii "#1aF") = some (.color ⟨0x11, 0xAA, 0xFF⟩) ∧ ofToken? [] = none := by
  have hempty : ∀ t : Token, t.text ≠ [] := by
    intro t
    cases t with
    | sixDigitColor => nofun
    | threeDigitColor => nofun
    | integer digits => simpa [Token.text, Token.leading, digitsText] using digits.ne_nil
    | floating => simp [Token.text]
  constructor
  · exact ((tokens_are_decoded_by_grammar (ascii "#1aF") (by decide)).1
      (.threeDigitColor ⟨1, false⟩ ⟨10, true⟩ ⟨15, false⟩) (by decide)).2
  · exact (tokens_are_decoded_by_grammar [] (by decide)).2.1 hempty

/-- An exponent without digits is no exponent, and what is left of it is not part of a number. -/
example : classify (ascii "1.5e+") = .failed := by decide

end Value
end PrefixMatching
