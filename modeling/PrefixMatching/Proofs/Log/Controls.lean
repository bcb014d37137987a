import PrefixMatching.Proofs.Utf8.Sanitize

/-!
# Control characters in log lines

Unicode has 65 control characters, U+0000 to U+001F and U+007F to U+009F. Of data that comes from
outside, all of them are escaped but U+0080 to U+008C, which appear in the log as they are
(`controls_sanitize`). What is logged about such data therefore has the control characters of its
label and these (`logged_controls_are_those_of_label_and_kept`).

Sanitized text begins with the first byte of a character, so it can stand behind any label: no
malformed bytes at the end of the label become a character with it
(`stops_append_of_isWellFormed`).
-/

namespace PrefixMatching

namespace Element

/-- A control character. -/
def isControl (c : Int) : Bool := isBetween 0 0x1F c || isBetween 0x7F 0x9F c

/-- A control character that sanitizing keeps. -/
def isKeptControl : Int → Bool := isBetween 0x80 0x8C

theorem isControl_iff (c : Int) :
    isControl c = true ↔ (0 ≤ c ∧ c ≤ 0x1F) ∨ (0x7F ≤ c ∧ c ≤ 0x9F) := by
  simp [isControl, isBetween]

theorem isKeptControl_iff (c : Int) : isKeptControl c = true ↔ 0x80 ≤ c ∧ c ≤ 0x8C := by
  simp [isKeptControl, isBetween]

end Element

namespace Utf8

open Reading (text)

variable {b : UInt8} {s t rest : Bytes}

/-! ## Text behind text -/

/-- Well-formed text does not begin with a continuation byte. -/
theorem not_isContinuation_of_isWellFormed (ht : IsWellFormed (b :: t)) :
    ¬ isContinuation b = true := by
  obtain ⟨chars, hchars⟩ := ht
  cases chars with
  | nil => cases hchars
  | cons c chars =>
    cases hbytes : String.utf8EncodeChar c with
    | nil => exact absurd hbytes String.utf8EncodeChar_ne_nil
    | cons lead continuations =>
      have hchar := (isCharacter_of_encode (isScalar_toNat c) (encode_toNat c ▸ hbytes)).1
      rw [List.flatMap_cons, hbytes, List.cons_append, List.cons.injEq] at hchars
      intro hcontinues
      have hwidth := leadWidth_of_isContinuation hcontinues
      rw [hchars.1, hchar.leadWidth_eq] at hwidth
      omega

/-- Well-formed text is read on its own, whatever stands before it. -/
theorem stops_append_of_isWellFormed (s : Bytes) (ht : IsWellFormed t) :
    text.Stops (s ++ t) s.length := by
  cases t with
  | nil =>
    rw [List.append_nil]
    exact Reading.stops_length s
  | cons first t =>
    have hle : s.length ≤ (s ++ first :: t).length := by simp
    rcases Reading.stops_or_inside (R := text) hle with hstop | ⟨m, d, -, hd, hm, hend⟩
    · exact hstop
    · -- inside a character of `s`, the first byte of `t` would continue it
      obtain ⟨lead, after, hdrop, rfl⟩ := Reading.decodeAt?_eq_some_iff.mp hd
      change s.length < m + (decode lead after).width at hend
      rw [Decoded.width] at hend
      have hafter : after = (s ++ first :: t).drop (m + 1) := by
        rw [← List.drop_drop, hdrop, List.drop_one, List.tail_cons]
      have hmem : first ∈ after.take (decode lead after).extra := by
        have hget : after[s.length - (m + 1)]? = some first := by
          rw [hafter, List.getElem?_drop, Nat.add_sub_cancel' hm,
            List.getElem?_append_right (Nat.le_refl _), Nat.sub_self]
          rfl
        have htake : (after.take (decode lead after).extra)[s.length - (m + 1)]? = some first := by
          rw [List.getElem?_take_of_lt (by omega), hget]
        exact List.mem_of_getElem? htake
      exact absurd (isContinuation_of_mem_take_extra hmem) (not_isContinuation_of_isWellFormed ht)

/-! ## Code points -/

/-- The code points of a text. -/
def codePoints (s : Bytes) : List Int := (text.elements s).map Decoded.element

theorem codePoints_append (s : Bytes) (ht : IsWellFormed t) :
    codePoints (s ++ t) = codePoints s ++ codePoints t := by
  have hkeeps := (stops_append_of_isWellFormed s ht).elements_eq_append
  rw [List.take_left, List.drop_left] at hkeeps
  rw [codePoints, hkeeps, List.map_append, codePoints, codePoints]

/-- A byte that starts no character is read as the replacement character. -/
theorem codePoints_cons_of_malformed (h : decode b rest = malformed) :
    codePoints (b :: rest) = 0xFFFD :: codePoints rest := by
  rw [codePoints, Reading.elements_eq_cons (Reading.decodeAt?_eq_some_iff.mpr ⟨b, rest, rfl, h⟩)]
  rfl

theorem codePoints_utf8EncodeChar_append (c : Char) (rest : Bytes) :
    codePoints (String.utf8EncodeChar c ++ rest) = (c.toNat : Int) :: codePoints rest := by
  have hread : text.decodeAt? (String.utf8EncodeChar c ++ rest) 0 = some (.ofChar c) :=
    decodeAt?_utf8EncodeChar_append c rest
  rw [codePoints, Reading.elements_eq_cons hread, Decoded.width_ofChar, List.drop_left]
  rfl

theorem codePoints_utf8EncodeChar (c : Char) :
    codePoints (String.utf8EncodeChar c) = [(c.toNat : Int)] := by
  have happend := codePoints_utf8EncodeChar_append c []
  rwa [List.append_nil] at happend

/-- An ASCII byte is its own code point. -/
theorem codePoints_cons_of_lt (hb : b.toNat < 0x80) :
    codePoints (b :: rest) = (b.toNat : Int) :: codePoints rest := by
  have hread : text.decodeAt? (b :: rest) 0 = some ⟨b.toNat, 0⟩ :=
    Reading.decodeAt?_eq_some_iff.mpr ⟨b, rest, rfl, decode_of_lt hb rest⟩
  rw [codePoints, Reading.elements_eq_cons hread]
  rfl

/-! ## Control characters -/

/-- The control characters of a text, in order. -/
def controls (s : Bytes) : List Int := (codePoints s).filter Element.isControl

theorem controls_append (s : Bytes) (ht : IsWellFormed t) :
    controls (s ++ t) = controls s ++ controls t := by
  rw [controls, codePoints_append s ht, List.filter_append, controls, controls]

theorem controls_cons_of_printable (hb : 0x20 ≤ b.toNat ∧ b.toNat ≤ 0x7E) :
    controls (b :: rest) = controls rest := by
  have hcontrol : ¬ Element.isControl b.toNat = true := by
    rw [Element.isControl_iff]
    omega
  rw [controls, codePoints_cons_of_lt (by omega), List.filter_cons_of_neg hcontrol, controls]

/-- Printable ASCII has no control characters. -/
theorem controls_of_forall (hs : ∀ b ∈ s, 0x20 ≤ b.toNat ∧ b.toNat ≤ 0x7E) : controls s = [] := by
  induction s with
  | nil => rfl
  | cons b s ih =>
    obtain ⟨hb, hs⟩ := List.forall_mem_cons.mp hs
    rw [controls_cons_of_printable hb, ih hs]

theorem controls_flatMap_escape (s : Bytes) : controls (s.flatMap escape) = [] := by
  refine controls_of_forall fun x hx => ?_
  obtain ⟨b, -, hb⟩ := List.mem_flatMap.mp hx
  exact printable_of_mem_escape b x hb

/-- Of a character a control character is left if it is one of those that are kept. -/
theorem controls_spelled (c : Char) :
    controls (spelled (.ofChar c) (String.utf8EncodeChar c)) =
      [(c.toNat : Int)].filter Element.isKeptControl := by
  have hcontrol := Element.isControl_iff c.toNat
  have hlow := Element.isKeptControl_iff c.toNat
  by_cases hkept : IsKept (.ofChar c)
  · have hsame : Element.isControl c.toNat = Element.isKeptControl c.toNat := by
      rw [Bool.eq_iff_iff, hcontrol, hlow]
      rw [isKept_ofChar_iff] at hkept
      omega
    rw [spelled, if_pos hkept, controls, codePoints_utf8EncodeChar, List.filter_cons, hsame,
      List.filter_nil, List.filter_cons, List.filter_nil]
  · have hnone : ¬ Element.isKeptControl c.toNat = true := by
      rw [hlow]
      rw [isKept_ofChar_iff] at hkept
      unfold IsNoncharacter at hkept
      omega
    rw [spelled, if_neg hkept, controls_flatMap_escape, List.filter_cons_of_neg hnone,
      List.filter_nil]

/-- Sanitized text is well-formed. -/
theorem isWellFormed_sanitize (s : Bytes) : IsWellFormed (sanitize s) := by
  obtain ⟨chars, hchars, -⟩ := isPrintableText_sanitize s
  exact ⟨chars, hchars⟩

/-- Of all control characters, sanitizing keeps U+0080 to U+008C. -/
theorem controls_sanitize (s : Bytes) :
    controls (sanitize s) = (codePoints s).filter Element.isKeptControl := by
  induction s using text_induction with
  | nil => rfl
  | byte b rest h ih =>
    have hreplacement : ¬ Element.isKeptControl 0xFFFD = true := by decide
    rw [sanitize_cons_of_malformed h, controls_append _ (isWellFormed_sanitize rest), ih,
      controls_of_forall (printable_of_mem_escape b), codePoints_cons_of_malformed h,
      List.filter_cons_of_neg hreplacement, List.nil_append]
  | character c rest ih =>
    rw [sanitize_utf8EncodeChar_append, controls_append _ (isWellFormed_sanitize rest), ih,
      controls_spelled, codePoints_utf8EncodeChar_append, ← List.filter_append,
      List.singleton_append]

end Utf8

namespace Log

open Utf8 (codePoints controls)

/-- What is logged about data from outside, behind the time stamp and up to the line feed at its
end, has the control characters of the label and those of U+0080 to U+008C that the data has. So it
has none exactly if the label has none and the data none of these. -/
theorem logged_controls_are_those_of_label_and_kept {m : Type → Type} [Monad m]
    (arithmetic : SignedArithmetic) (now : m Int) (put : Bytes → m Unit) (label data : Bytes) :
    let logged := ascii " " ++ untrusted label data
    (write arithmetic now put (untrusted label data) = do
      let stamp := (Timestamp.format? arithmetic (← now)).getD (ascii "<unknown time>")
      put (stamp ++ logged ++ ascii "\n")) ∧
    controls logged = controls label ++ (codePoints data).filter Element.isKeptControl ∧
    (controls logged = [] ↔
      controls label = [] ∧ ∀ c ∈ codePoints data, ¬ (0x80 ≤ c ∧ c ≤ 0x8C)) := by
  intro logged
  have hlogged : controls logged =
      controls label ++ (codePoints data).filter Element.isKeptControl := by
    have hblank : controls logged = controls (untrusted label data) :=
      Utf8.controls_cons_of_printable (by decide)
    rw [hblank, untrusted, Utf8.controls_append _ (Utf8.isWellFormed_sanitize data),
      Utf8.controls_sanitize]
  refine ⟨?_, hlogged, ?_⟩
  · simp only [write, line, stamp, logged, List.append_assoc]
  · simp [hlogged, List.filter_eq_nil_iff, Element.isKeptControl_iff]

/-- The line separator U+0085 is a control character that is logged as it is. -/
theorem nextLine_is_logged :
    ¬ ∀ label data : Bytes, controls label = [] →
      controls (ascii " " ++ untrusted label data) = [] := by
  intro h
  have hnone := h (ascii "Rejected: ") [0xC2, 0x85] (by decide)
  exact absurd hnone (by decide)

end Log
end PrefixMatching
