import PrefixMatching.Utf8

/-!
# Well-formed characters

The bytes of a well-formed character are a first byte and its continuation bytes (`IsCharacter`).
Decoding returns them where they stand at the front of a text and the replacement character
everywhere else; encoding produces exactly them. So the reading of text is the inverse of the
standard encoding (`decodeAt_inverts_utf8EncodeChar`).
-/

namespace PrefixMatching
namespace Utf8

variable {b lead : UInt8} {rest continuations : Bytes} {c n : Nat}

/-! ## Byte classes as numbers -/

/-- The first bytes by the widths they announce. -/
theorem leadWidth_cases (b : UInt8) :
    (leadWidth b = 1 ∧ b.toNat < 0x80) ∨
    (leadWidth b = 0 ∧ (0x80 ≤ b.toNat ∧ b.toNat < 0xC0 ∨ 0xF8 ≤ b.toNat)) ∨
    (leadWidth b = 2 ∧ 0xC0 ≤ b.toNat ∧ b.toNat < 0xE0) ∨
    (leadWidth b = 3 ∧ 0xE0 ≤ b.toNat ∧ b.toNat < 0xF0) ∨
    (leadWidth b = 4 ∧ 0xF0 ≤ b.toNat ∧ b.toNat < 0xF8) := by
  unfold leadWidth
  simp only [UInt8.lt_iff_toNat_lt, UInt8.reduceToNat]
  split
  · omega
  split
  · omega
  split
  · omega
  split
  · omega
  split <;> omega

/-- Continuation bytes lie between the ASCII bytes and the first bytes. -/
theorem isContinuation_iff : isContinuation b = true ↔ 0x80 ≤ b.toNat ∧ b.toNat < 0xC0 := by
  rw [isContinuation, Bool.and_eq_true, decide_eq_true_eq, decide_eq_true_eq,
    UInt8.le_iff_toNat_le, UInt8.lt_iff_toNat_lt]
  rfl

/-- A continuation byte starts no character. -/
theorem leadWidth_of_isContinuation (h : isContinuation b = true) : leadWidth b = 0 := by
  rw [isContinuation_iff] at h
  have := leadWidth_cases b
  omega

theorem isScalar_iff : isScalar c = true ↔ c ≤ 0x10FFFF ∧ ¬ (0xD800 ≤ c ∧ c ≤ 0xDFFF) := by
  rw [isScalar, Bool.and_eq_true, decide_eq_true_eq, Bool.not_eq_true', Bool.and_eq_false_imp]
  simp only [decide_eq_true_eq, decide_eq_false_iff_not]
  exact and_congr_right fun _ => ⟨fun h h' => h h'.1 h'.2, fun h h₁ h₂ => h ⟨h₁, h₂⟩⟩

/-! ## The bytes of a character -/

/-- A first byte and the continuation bytes of a well-formed character. -/
structure IsCharacter (lead : UInt8) (continuations : Bytes) : Prop where
  /-- The first byte announces as many bytes as there are. -/
  leadWidth_eq : leadWidth lead = continuations.length + 1
  continues : continuations.all isContinuation = true
  /-- The value is a scalar value and needs all the bytes. -/
  shortest : isShortest (codePoint lead continuations) (continuations.length + 1) = true

namespace IsCharacter

/-- A character has at most three continuation bytes. -/
theorem length_le (h : IsCharacter lead continuations) : continuations.length ≤ 3 := by
  have := h.leadWidth_eq
  have := leadWidth_cases lead
  omega

theorem isScalar (h : IsCharacter lead continuations) :
    Utf8.isScalar (codePoint lead continuations) = true := by
  have := h.shortest
  rw [isShortest, Bool.and_eq_true] at this
  exact this.2

end IsCharacter

/-! ## Decoding characters -/

/-- A character at the front of a text is decoded. -/
theorem decode_append (h : IsCharacter lead continuations) (rest : Bytes) :
    decode lead (continuations ++ rest) =
      ⟨codePoint lead continuations, continuations.length⟩ := by
  have hwidth := h.leadWidth_eq
  unfold decode
  split
  · omega
  · -- a width of one leaves no continuation bytes
    rename_i hone
    have hnil : continuations = [] := List.length_eq_zero_iff.mp (by omega)
    have hlead := leadWidth_cases lead
    have hvalue : codePoint lead [] = lead.toNat % 128 := rfl
    rw [hnil, hvalue, Nat.mod_eq_of_lt (by omega)]
    rfl
  · rename_i extra _ hextra
    obtain rfl : extra = continuations.length := by omega
    dsimp only
    rw [List.take_left, if_pos]
    rw [Bool.and_eq_true, Bool.and_eq_true, decide_eq_true_eq]
    exact ⟨⟨rfl, h.continues⟩, h.shortest⟩

/-- What is decoded at the front of a text is a character that stands there, or malformed. -/
theorem decode_eq_malformed_or (lead : UInt8) (text : Bytes) :
    decode lead text = malformed ∨
      ∃ continuations rest, text = continuations ++ rest ∧ IsCharacter lead continuations := by
  have hlead := leadWidth_cases lead
  unfold decode
  split
  · exact .inl rfl
  · rename_i hwidth
    -- an ASCII byte is a character by itself
    refine .inr ⟨[], text, rfl, ⟨hwidth, rfl, ?_⟩⟩
    have hvalue : codePoint lead [] < 0x80 := by
      show lead.toNat % 0x80 < 0x80
      omega
    rw [isShortest, Bool.and_eq_true, isScalar_iff]
    exact ⟨rfl, by omega⟩
  · rename_i extra _ hwidth
    dsimp only
    split
    · rename_i h
      rw [Bool.and_eq_true, Bool.and_eq_true, decide_eq_true_eq] at h
      obtain ⟨⟨hlength, hcontinues⟩, hshortest⟩ := h
      refine .inr ⟨text.take extra, text.drop extra, (List.take_append_drop _ _).symm, ?_⟩
      exact ⟨by rw [hlength]; exact hwidth, hcontinues, by rw [hlength]; exact hshortest⟩
    · exact .inl rfl

/-- All further bytes of an element are continuation bytes. -/
theorem isContinuation_of_mem_take_extra {text : Bytes}
    (hb : b ∈ text.take (decode lead text).extra) : isContinuation b = true := by
  rcases decode_eq_malformed_or lead text with hmal | ⟨continuations, rest, rfl, hchar⟩
  · rw [hmal] at hb
    cases hb
  · rw [decode_append hchar, List.take_left] at hb
    exact List.all_eq_true.mp hchar.continues b hb

/-! ## Encoding characters -/

private theorem ofNat_eq_of_eq_toNat (h : n = b.toNat) : UInt8.ofNat n = b := by
  rw [h, UInt8.ofNat_toNat]

/-- The value bits of a character's bytes are encoded by these bytes. -/
theorem encode_codePoint (h : IsCharacter lead continuations) :
    encode (codePoint lead continuations) = lead :: continuations := by
  obtain ⟨hwidth, hcontinues, hshortest⟩ := h
  have hlead := leadWidth_cases lead
  rw [isShortest, Bool.and_eq_true, decide_eq_true_eq, isScalar_iff] at hshortest
  obtain ⟨hleast, hscalar, -⟩ := hshortest
  -- one case for each number of continuation bytes: the encoder takes the branch of this width, and
  -- division by powers of 64 takes the value apart again
  match continuations with
  | [] =>
    rw [List.length_nil] at hwidth
    have hvalue : codePoint lead [] = lead.toNat % 128 := rfl
    rw [encode, if_pos (by omega), ofNat_eq_of_eq_toNat (b := lead) (by omega)]
  | [x] =>
    rw [List.length_singleton] at hwidth
    simp only [List.all_cons, List.all_nil, Bool.and_true, isContinuation_iff] at hcontinues
    have hvalue : codePoint lead [x] = 64 * (lead.toNat % 64) + x.toNat % 64 := rfl
    change 0x80 ≤ codePoint lead [x] at hleast
    rw [encode, if_neg (by omega), if_pos (by omega), ofNat_eq_of_eq_toNat (b := lead) (by omega),
      ofNat_eq_of_eq_toNat (b := x) (by omega)]
  | [x, y] =>
    rw [List.length_cons, List.length_singleton] at hwidth
    simp only [List.all_cons, List.all_nil, Bool.and_true, Bool.and_eq_true, isContinuation_iff]
      at hcontinues
    have hvalue : codePoint lead [x, y] =
        64 * (64 * (lead.toNat % 32) + x.toNat % 64) + y.toNat % 64 := rfl
    change 0x800 ≤ codePoint lead [x, y] at hleast
    rw [encode, if_neg (by omega), if_neg (by omega), if_pos (by omega),
      ofNat_eq_of_eq_toNat (b := lead) (by omega), ofNat_eq_of_eq_toNat (b := x) (by omega),
      ofNat_eq_of_eq_toNat (b := y) (by omega)]
  | [x, y, z] =>
    rw [List.length_cons, List.length_cons, List.length_singleton] at hwidth
    simp only [List.all_cons, List.all_nil, Bool.and_true, Bool.and_eq_true, isContinuation_iff]
      at hcontinues
    have hvalue : codePoint lead [x, y, z] =
        64 * (64 * (64 * (lead.toNat % 16) + x.toNat % 64) + y.toNat % 64) + z.toNat % 64 := rfl
    change 0x10000 ≤ codePoint lead [x, y, z] at hleast
    rw [encode, if_neg (by omega), if_neg (by omega), if_neg (by omega),
      ofNat_eq_of_eq_toNat (b := lead) (by omega), ofNat_eq_of_eq_toNat (b := x) (by omega),
      ofNat_eq_of_eq_toNat (b := y) (by omega), ofNat_eq_of_eq_toNat (b := z) (by omega)]
  | _ :: _ :: _ :: _ :: _ =>
    simp only [List.length_cons] at hwidth
    omega

private theorem toNat_ofNat_of_lt (h : n < 256) : (UInt8.ofNat n).toNat = n :=
  UInt8.toNat_ofNat_of_lt' h

private theorem isContinuation_ofNat (n : Nat) :
    isContinuation (UInt8.ofNat (0x80 + n % 64)) = true := by
  rw [isContinuation_iff, toNat_ofNat_of_lt (by omega)]
  omega

private theorem isCharacter_of_codePoint_eq (hc : isScalar c = true)
    (hwidth : leadWidth lead = continuations.length + 1)
    (hcontinues : continuations.all isContinuation = true)
    (hleast : leastOfWidth (continuations.length + 1) ≤ c)
    (hvalue : codePoint lead continuations = c) :
    IsCharacter lead continuations ∧ codePoint lead continuations = c := by
  refine ⟨⟨hwidth, hcontinues, ?_⟩, hvalue⟩
  rw [hvalue, isShortest, hc, Bool.and_true, decide_eq_true_eq]
  exact hleast

/-- A scalar value is encoded by the bytes of a character with this value. -/
theorem isCharacter_of_encode (hc : isScalar c = true) (h : encode c = lead :: continuations) :
    IsCharacter lead continuations ∧ codePoint lead continuations = c := by
  have hrange := isScalar_iff.mp hc
  -- one case for each branch of the encoder
  unfold encode at h
  split at h
  · cases h
    have hlead := toNat_ofNat_of_lt (show c < 256 by omega)
    have hcases := leadWidth_cases (UInt8.ofNat c)
    refine isCharacter_of_codePoint_eq hc (show _ = 1 by omega) rfl (Nat.zero_le _) ?_
    show (UInt8.ofNat c).toNat % 128 = c
    omega
  split at h
  · cases h
    have hlead := toNat_ofNat_of_lt (show 0xC0 + c / 64 < 256 by omega)
    have hcases := leadWidth_cases (UInt8.ofNat (0xC0 + c / 64))
    refine isCharacter_of_codePoint_eq hc (show _ = 2 by omega) ?_ (show 0x80 ≤ c by omega) ?_
    · simp only [List.all_cons, List.all_nil, isContinuation_ofNat, Bool.and_self]
    · show 64 * ((UInt8.ofNat (0xC0 + c / 64)).toNat % 64)
        + (UInt8.ofNat (0x80 + c % 64)).toNat % 64 = c
      rw [hlead, toNat_ofNat_of_lt (by omega)]
      omega
  split at h
  · cases h
    have hlead := toNat_ofNat_of_lt (show 0xE0 + c / 4096 < 256 by omega)
    have hcases := leadWidth_cases (UInt8.ofNat (0xE0 + c / 4096))
    refine isCharacter_of_codePoint_eq hc (show _ = 3 by omega) ?_ (show 0x800 ≤ c by omega) ?_
    · simp only [List.all_cons, List.all_nil, isContinuation_ofNat, Bool.and_self]
    · show 64 * (64 * ((UInt8.ofNat (0xE0 + c / 4096)).toNat % 32)
          + (UInt8.ofNat (0x80 + c / 64 % 64)).toNat % 64)
        + (UInt8.ofNat (0x80 + c % 64)).toNat % 64 = c
      rw [hlead, toNat_ofNat_of_lt (n := 0x80 + c / 64 % 64) (by omega),
        toNat_ofNat_of_lt (by omega)]
      omega
  · cases h
    have hlead := toNat_ofNat_of_lt (show 0xF0 + c / 262144 < 256 by omega)
    have hcases := leadWidth_cases (UInt8.ofNat (0xF0 + c / 262144))
    refine isCharacter_of_codePoint_eq hc (show _ = 4 by omega) ?_ (show 0x10000 ≤ c by omega) ?_
    · simp only [List.all_cons, List.all_nil, isContinuation_ofNat, Bool.and_self]
    · show 64 * (64 * (64 * ((UInt8.ofNat (0xF0 + c / 262144)).toNat % 16)
            + (UInt8.ofNat (0x80 + c / 4096 % 64)).toNat % 64)
          + (UInt8.ofNat (0x80 + c / 64 % 64)).toNat % 64)
        + (UInt8.ofNat (0x80 + c % 64)).toNat % 64 = c
      rw [hlead, toNat_ofNat_of_lt (n := 0x80 + c / 4096 % 64) (by omega),
        toNat_ofNat_of_lt (n := 0x80 + c / 64 % 64) (by omega), toNat_ofNat_of_lt (by omega)]
      omega

/-! ## The standard encoding -/

/-- Every `Char` is a scalar value. -/
theorem isScalar_toNat (c : Char) : isScalar c.toNat = true := by
  have hvalid : c.toNat.isValidChar := c.valid
  rw [isScalar_iff]
  unfold Nat.isValidChar at hvalid
  omega

/-- Every scalar value is a `Char`. -/
theorem exists_char_of_isScalar (h : isScalar c = true) : ∃ x : Char, x.toNat = c := by
  rw [isScalar_iff] at h
  exact ⟨Char.ofNatAux c (by unfold Nat.isValidChar; omega), rfl⟩

/-- The encoder is the standard one. -/
theorem encode_toNat (c : Char) : encode c.toNat = String.utf8EncodeChar c := by
  have hscalar := isScalar_iff.mp (isScalar_toNat c)
  have hval : c.val.toNat = c.toNat := rfl
  unfold encode String.utf8EncodeChar
  dsimp only
  rw [hval]
  -- the two differ in the order of the summands and in remainders that change no scalar value
  split
  · rw [if_pos (by omega)]
  split
  · rw [if_neg (by omega), if_pos (by omega), Nat.mod_eq_of_lt (b := 0x20) (by omega),
      Nat.add_comm 0xC0, Nat.add_comm 0x80]
  split
  · rw [if_neg (by omega), if_neg (by omega), if_pos (by omega),
      Nat.mod_eq_of_lt (b := 0x10) (by omega), Nat.add_comm 0xE0, Nat.add_comm 0x80,
      Nat.add_comm 0x80]
  · rw [if_neg (by omega), if_neg (by omega), if_neg (by omega),
      Nat.mod_eq_of_lt (b := 0x08) (by omega), Nat.add_comm 0xF0, Nat.add_comm 0x80,
      Nat.add_comm 0x80, Nat.add_comm 0x80]

/-- Decoding undoes encoding, whatever follows. -/
theorem decode_of_utf8EncodeChar_isPrefix {c : Char} {text : Bytes}
    (h : String.utf8EncodeChar c <+: lead :: text) :
    decode lead text = ⟨c.toNat, (String.utf8EncodeChar c).length - 1⟩ := by
  obtain ⟨rest, hrest⟩ := h
  cases hbytes : String.utf8EncodeChar c with
  | nil => exact absurd hbytes String.utf8EncodeChar_ne_nil
  | cons first continuations =>
    rw [hbytes, List.cons_append, List.cons.injEq] at hrest
    obtain ⟨rfl, rfl⟩ := hrest
    rw [← encode_toNat] at hbytes
    obtain ⟨hchar, hvalue⟩ := isCharacter_of_encode (isScalar_toNat c) hbytes
    rw [decode_append hchar, hvalue, List.length_cons, Nat.add_sub_cancel]

/-- What is not malformed starts with an encoded character. -/
theorem exists_utf8EncodeChar_isPrefix {text : Bytes} (h : decode lead text ≠ malformed) :
    ∃ c : Char, String.utf8EncodeChar c <+: lead :: text := by
  rcases decode_eq_malformed_or lead text with hmal | ⟨continuations, rest, rfl, hchar⟩
  · exact absurd hmal h
  · obtain ⟨c, hc⟩ := exists_char_of_isScalar hchar.isScalar
    refine ⟨c, rest, ?_⟩
    rw [← encode_toNat, hc, encode_codePoint hchar, List.cons_append]

/-- Decoding inverts the standard encoding: where an encoded character stands it is read, with all
of its bytes, and everywhere else one byte is read as the replacement character. -/
theorem decodeAt_inverts_utf8EncodeChar (s : Bytes) (offset : Nat) (h : offset < s.length) :
    (∀ c : Char, String.utf8EncodeChar c <+: s.drop offset →
      decodeAt s offset = ((c.toNat : Int), (String.utf8EncodeChar c).length)) ∧
    ((∀ c : Char, ¬ String.utf8EncodeChar c <+: s.drop offset) →
      decodeAt s offset = (0xFFFD, 1)) ∧
    1 ≤ (decodeAt s offset).2 ∧ (decodeAt s offset).2 ≤ s.length - offset := by
  unfold decodeAt
  have hlength := List.length_drop (i := offset) (l := s)
  cases hdrop : s.drop offset with
  | nil =>
    rw [hdrop, List.length_nil] at hlength
    omega
  | cons lead text =>
    dsimp only
    refine ⟨fun c hc => ?_, fun hno => ?_, Nat.le_add_left _ _, ?_⟩
    · have hpos := List.length_pos_iff.mpr (String.utf8EncodeChar_ne_nil (c := c))
      rw [decode_of_utf8EncodeChar_isPrefix hc, Decoded.width, Nat.sub_add_cancel hpos]
    · have hmal : decode lead text = malformed := by
        by_cases hmal : decode lead text = malformed
        · exact hmal
        · obtain ⟨c, hc⟩ := exists_utf8EncodeChar_isPrefix hmal
          exact absurd hc (hno c)
      rw [hmal]
      rfl
    · have hextra := extra_decode_le lead text
      rw [hdrop, List.length_cons] at hlength
      rw [Decoded.width]
      omega

/-- A euro sign is read between an ASCII letter and a surrogate, and of the surrogate one byte. -/
theorem decodeAt_inverts_utf8EncodeChar_euro :
    let s : Bytes := [0x61, 0xE2, 0x82, 0xAC, 0xED, 0xA0, 0x80]
    (1 < s.length ∧ String.utf8EncodeChar '€' <+: s.drop 1 ∧ decodeAt s 1 = (0x20AC, 3)) ∧
    (4 < s.length ∧ (∀ c : Char, ¬ String.utf8EncodeChar c <+: s.drop 4) ∧
      decodeAt s 4 = (0xFFFD, 1)) := by
  intro s
  have heuro := decodeAt_inverts_utf8EncodeChar s 1 (by decide)
  have hsurrogate := decodeAt_inverts_utf8EncodeChar s 4 (by decide)
  have hnone : ∀ c : Char, ¬ String.utf8EncodeChar c <+: s.drop 4 := by
    intro c hc
    -- the replacement character itself has three bytes, so no character is read as its one byte
    have hread := hsurrogate.1 c hc
    rw [show decodeAt s 4 = (0xFFFD, 1) by decide, Prod.mk.injEq] at hread
    have hvalue : c.toNat = 0xFFFD := by omega
    rw [← encode_toNat, hvalue] at hread
    exact absurd hread.2 (by decide)
  exact ⟨⟨by decide, by decide, heuro.1 '€' (by decide)⟩, by decide, hnone, hsurrogate.2.1 hnone⟩

end Utf8
end PrefixMatching
