import PrefixMatching.Proofs.Counts
import PrefixMatching.Proofs.Literals
import PrefixMatching.Proofs.Log

/-!
# What sanitizing makes of a text

Every text is made of characters and of single bytes that start none (`text_induction`). Sanitizing
goes through these elements, although it escapes byte by byte: the further bytes of a character
start no character themselves, so all of them are escaped where the first one is
(`sanitize_utf8EncodeChar_append`). So a sanitized text is its elements, each spelled on its own
(`sanitize_eq_flatMap_spans`), and a cut at a boundary does not matter.

The result consists of characters that are kept as they are (`isPrintableText_sanitize`), so it is
well-formed and sanitizing it again changes nothing.
-/

namespace PrefixMatching

/-! ## Elements with their units -/

namespace Reading

variable {α : Type} {R : Reading α} {s : List α} {d : Decoded} {n : Nat}

/-- Elements that follow each other in a sequence, each with the units that it occupies. -/
def spansOf : List Decoded → List α → List (Decoded × List α)
  | [], _ => []
  | d :: elements, s => (d, s.take d.width) :: spansOf elements (s.drop d.width)

/-- The elements of a sequence, each with the units that it occupies. -/
def spans (R : Reading α) (s : List α) : List (Decoded × List α) := spansOf (R.elements s) s

/-- The first element with its units, and those of the rest after it. -/
theorem spans_eq_cons (hd : R.decodeAt? s 0 = some d) :
    R.spans s = (d, s.take d.width) :: R.spans (s.drop d.width) := by
  rw [spans, elements_eq_cons hd]
  rfl

theorem spansOf_append (xs ys : List Decoded) (s : List α) :
    spansOf (xs ++ ys) s = spansOf xs s ++ spansOf ys (s.drop (occupied xs)) := by
  induction xs generalizing s with
  | nil => rfl
  | cons d xs ih =>
    have hwidth : d.width + occupied xs = occupied (d :: xs) := (occupied_cons d xs).symm
    rw [List.cons_append, spansOf, ih, List.drop_drop, hwidth]
    rfl

/-- Elements do not need the units after them. -/
theorem spansOf_take (xs : List Decoded) (s : List α) (h : occupied xs ≤ n) :
    spansOf xs (s.take n) = spansOf xs s := by
  induction xs generalizing s n with
  | nil => rfl
  | cons d xs ih =>
    have hwidth : occupied (d :: xs) = d.width + occupied xs := occupied_cons d xs
    rw [spansOf, spansOf, List.take_take, List.drop_take, Nat.min_eq_left (by omega),
      ih _ (by omega)]

/-- The elements of a sequence occupy all of its units. -/
theorem occupied_elementsFrom (owed : Nat) (s : List α) (howed : owed ≤ s.length) :
    owed + occupied (R.elementsFrom owed s) = s.length := by
  induction s generalizing owed with
  | nil =>
    rw [List.length_nil] at howed ⊢
    exact Nat.le_zero.mp howed
  | cons unit rest ih =>
    rw [List.length_cons] at howed ⊢
    cases owed with
    | zero =>
      have hextra := ih (R.decode unit rest).extra (R.extra_le unit rest)
      rw [elementsFrom, occupied_cons]
      omega
    | succ owed =>
      have hrest := ih owed (by omega)
      rw [elementsFrom]
      omega

theorem occupied_elements (s : List α) : occupied (R.elements s) = s.length := by
  have hall := occupied_elementsFrom (R := R) 0 s (Nat.zero_le _)
  rwa [Nat.zero_add] at hall

/-- A cut at a stop keeps the elements and their units. -/
theorem Stops.spans_eq_append [R.Synchronizing] (hn : R.Stops s n) :
    R.spans s = R.spans (s.take n) ++ R.spans (s.drop n) := by
  have hfront : occupied (R.elements (s.take n)) = n := by
    rw [occupied_elements, List.length_take_of_le hn.le_length]
  rw [spans, hn.elements_eq_append, spansOf_append, hfront, spans, spans,
    spansOf_take _ s (Nat.le_of_eq hfront)]

end Reading

/-- The element that a character is read as. -/
def Decoded.ofChar (c : Char) : Decoded := ⟨c.toNat, (String.utf8EncodeChar c).length - 1⟩

theorem Decoded.width_ofChar (c : Char) :
    (Decoded.ofChar c).width = (String.utf8EncodeChar c).length :=
  Nat.sub_add_cancel (List.length_pos_iff.mpr String.utf8EncodeChar_ne_nil)

namespace Utf8

open Reading (text)

variable {b : UInt8} {s t rest : Bytes}

/-! ## Text, element by element -/

/-- A text begins with a character or with a byte that starts none, and so does what follows. -/
@[elab_as_elim]
theorem text_induction {motive : Bytes → Prop} (nil : motive [])
    (byte : ∀ b rest, decode b rest = malformed → motive rest → motive (b :: rest))
    (character : ∀ (c : Char) rest, motive rest → motive (String.utf8EncodeChar c ++ rest))
    (s : Bytes) : motive s := by
  induction hn : s.length using Nat.strong_induction_on generalizing s with
  | _ n ih =>
    cases s with
    | nil => exact nil
    | cons b rest =>
      rw [List.length_cons] at hn
      by_cases hmal : decode b rest = malformed
      · exact byte b rest hmal (ih rest.length (by omega) rest rfl)
      · obtain ⟨c, after, hafter⟩ := exists_utf8EncodeChar_isPrefix hmal
        have hpos := List.length_pos_iff.mpr (String.utf8EncodeChar_ne_nil (c := c))
        have hlength := congrArg List.length hafter
        rw [List.length_append, List.length_cons] at hlength
        rw [← hafter]
        exact character c after (ih after.length (by omega) after rfl)

/-- A byte that starts no character is an element by itself. -/
theorem spans_cons_of_malformed (h : decode b rest = malformed) :
    text.spans (b :: rest) = (malformed, [b]) :: text.spans rest :=
  Reading.spans_eq_cons (Reading.decodeAt?_eq_some_iff.mpr ⟨b, rest, rfl, h⟩)

/-- A character is one element with all its bytes. -/
theorem spans_utf8EncodeChar_append (c : Char) (rest : Bytes) :
    text.spans (String.utf8EncodeChar c ++ rest) =
      (.ofChar c, String.utf8EncodeChar c) :: text.spans rest := by
  have hread : text.decodeAt? (String.utf8EncodeChar c ++ rest) 0 = some (.ofChar c) :=
    decodeAt?_utf8EncodeChar_append c rest
  rw [Reading.spans_eq_cons hread, Decoded.width_ofChar, List.take_left, List.drop_left]

/-! ## Elements that are kept -/

/-- A code point that Unicode reserves as no character: one of U+FDD0 to U+FDEF, or one of the last
two of a plane. -/
def IsNoncharacter (c : Int) : Prop :=
  (0xFDD0 ≤ c ∧ c ≤ 0xFDEF) ∨ c % 0x10000 = 0xFFFE ∨ c % 0x10000 = 0xFFFF

/-- Whether an element is kept: an ASCII byte from space to tilde, or a character of several bytes
that is neither one of U+008D to U+009F nor a noncharacter. -/
def IsKept (d : Decoded) : Prop :=
  (d.width = 1 ∧ 0x20 ≤ d.element ∧ d.element ≤ 0x7E) ∨
  (1 < d.width ∧ ((0x80 ≤ d.element ∧ d.element ≤ 0x8C) ∨ 0x9F < d.element) ∧
    ¬ IsNoncharacter d.element)

instance (c : Int) : Decidable (IsNoncharacter c) :=
  inferInstanceAs (Decidable ((_ ∧ _) ∨ _ ∨ _))

instance : DecidablePred IsKept := fun _ =>
  inferInstanceAs (Decidable ((_ ∧ _ ∧ _) ∨ (_ ∧ _ ∧ ¬ IsNoncharacter _)))

theorem isNoncharacter_iff (c : Int) : isNoncharacter c = true ↔ IsNoncharacter c := by
  simp only [isNoncharacter, IsNoncharacter, Bool.or_eq_true, Bool.and_eq_true, decide_eq_true_eq]
  omega

/-- A character has one byte exactly if it is ASCII. -/
theorem width_ofChar_eq_one_iff (c : Char) : (Decoded.ofChar c).width = 1 ↔ c.toNat < 0x80 := by
  rw [Decoded.width_ofChar, ← encode_toNat]
  unfold encode
  split_ifs <;> simp [*]

/-- A character is kept if it is printable ASCII, or a character past ASCII that is neither one of
U+008D to U+009F nor a noncharacter. -/
theorem isKept_ofChar_iff (c : Char) :
    IsKept (.ofChar c) ↔ (0x20 ≤ c.toNat ∧ c.toNat ≤ 0x7E) ∨
      (((0x80 ≤ c.toNat ∧ c.toNat ≤ 0x8C) ∨ 0x9F < c.toNat) ∧
        ¬ IsNoncharacter c.toNat) := by
  have hone := width_ofChar_eq_one_iff c
  have hpos : 0 < (Decoded.ofChar c).width := Nat.succ_pos _
  have helement : (Decoded.ofChar c).element = c.toNat := rfl
  rw [IsKept, helement]
  unfold IsNoncharacter
  omega

theorem isPrintable_ofChar_iff (c : Char) :
    isPrintable (.ofChar c) = true ↔ IsKept (.ofChar c) := by
  have hone := width_ofChar_eq_one_iff c
  have hnon := isNoncharacter_iff c.toNat
  have hwidth : (Decoded.ofChar c).width = (Decoded.ofChar c).extra + 1 := rfl
  have helement : (Decoded.ofChar c).element = c.toNat := rfl
  rw [isKept_ofChar_iff, isPrintable, helement]
  by_cases hextra : (Decoded.ofChar c).extra = 0
  · rw [if_pos hextra]
    simp only [Bool.and_eq_true, decide_eq_true_eq]
    omega
  · rw [if_neg hextra]
    simp only [Bool.and_eq_true, Bool.or_eq_true, decide_eq_true_eq, Bool.not_eq_true',
      ← Bool.not_eq_true, hnon, IsNoncharacter]
    omega

/-! ## Spelling elements -/

/-- An element as it is printed: its own bytes if it is kept, else each of its bytes escaped. -/
def spelled (d : Decoded) (bytes : Bytes) : Bytes :=
  if IsKept d then bytes else bytes.flatMap escape

theorem not_isKept_malformed : ¬ IsKept malformed := by decide

/-- A byte that starts no character is escaped. -/
theorem sanitize_cons_of_malformed (h : decode b rest = malformed) :
    sanitize (b :: rest) = escape b ++ sanitize rest := by
  have hprintable : ¬ isPrintable malformed = true := by decide
  rw [sanitize, sanitizeFrom, h, if_neg hprintable, sanitize]

/-- Continuation bytes on their own are escaped. -/
theorem sanitize_append_of_isContinuation (hs : s.all isContinuation = true) (rest : Bytes) :
    sanitize (s ++ rest) = s.flatMap escape ++ sanitize rest := by
  induction s with
  | nil => rfl
  | cons b s ih =>
    rw [List.all_cons, Bool.and_eq_true] at hs
    rw [List.cons_append, sanitize_cons_of_malformed (decode_of_isContinuation hs.1 _), ih hs.2,
      List.flatMap_cons, List.append_assoc]

/-- The bytes still owed are copied. -/
theorem sanitizeFrom_length_append (s rest : Bytes) :
    sanitizeFrom s.length (s ++ rest) = s ++ sanitize rest := by
  induction s with
  | nil =>
    cases rest <;> rfl
  | cons b s ih => rw [List.length_cons, List.cons_append, sanitizeFrom, ih, List.cons_append]

/-- A character is kept with all its bytes, or all its bytes are escaped. -/
theorem sanitize_utf8EncodeChar_append (c : Char) (rest : Bytes) :
    sanitize (String.utf8EncodeChar c ++ rest) =
      spelled (.ofChar c) (String.utf8EncodeChar c) ++ sanitize rest := by
  have hprintable := isPrintable_ofChar_iff c
  cases hbytes : String.utf8EncodeChar c with
  | nil => exact absurd hbytes String.utf8EncodeChar_ne_nil
  | cons lead continuations =>
    have hchar := (isCharacter_of_encode (isScalar_toNat c) (encode_toNat c ▸ hbytes)).1
    have hdecode : decode lead (continuations ++ rest) = .ofChar c := by
      refine decode_of_utf8EncodeChar_isPrefix ?_
      rw [hbytes, ← List.cons_append]
      exact List.prefix_append _ _
    have hextra : (Decoded.ofChar c).extra = continuations.length := by
      rw [Decoded.ofChar, hbytes]
      rfl
    rw [List.cons_append, sanitize, sanitizeFrom, hdecode, spelled]
    by_cases hkept : IsKept (.ofChar c)
    · rw [if_pos (hprintable.mpr hkept), if_pos hkept, hextra, sanitizeFrom_length_append,
        List.cons_append]
    · have hrest := sanitize_append_of_isContinuation hchar.continues rest
      rw [sanitize] at hrest
      rw [if_neg (mt hprintable.mp hkept), if_neg hkept, hrest, List.flatMap_cons,
        List.append_assoc]

/-- Sanitizing spells one element after the other. -/
theorem sanitize_eq_flatMap_spans (s : Bytes) :
    sanitize s = (text.spans s).flatMap fun span => spelled span.1 span.2 := by
  induction s using text_induction with
  | nil => rfl
  | byte b rest h ih =>
    rw [sanitize_cons_of_malformed h, spans_cons_of_malformed h, List.flatMap_cons, ← ih, spelled,
      if_neg not_isKept_malformed, List.flatMap_singleton]
  | character c rest ih =>
    rw [sanitize_utf8EncodeChar_append, spans_utf8EncodeChar_append, List.flatMap_cons, ← ih]

/-! ## Printable text -/

/-- Text that is made of characters which are kept. -/
def IsPrintableText (s : Bytes) : Prop :=
  ∃ chars : List Char, s = chars.flatMap String.utf8EncodeChar ∧ ∀ c ∈ chars, IsKept (.ofChar c)

theorem IsPrintableText.append (hs : IsPrintableText s) (ht : IsPrintableText t) :
    IsPrintableText (s ++ t) := by
  obtain ⟨xs, rfl, hxs⟩ := hs
  obtain ⟨ys, rfl, hys⟩ := ht
  exact ⟨xs ++ ys, List.flatMap_append.symm, List.forall_mem_append.mpr ⟨hxs, hys⟩⟩

/-- Printable ASCII is such text. -/
theorem isPrintableText_of_forall (hs : ∀ b ∈ s, 0x20 ≤ b.toNat ∧ b.toNat ≤ 0x7E) :
    IsPrintableText s := by
  induction s with
  | nil => exact ⟨[], rfl, nofun⟩
  | cons b s ih =>
    obtain ⟨hb, hs⟩ := List.forall_mem_cons.mp hs
    obtain ⟨c, hc⟩ := exists_char_of_isScalar (c := b.toNat) (isScalar_iff.mpr (by omega))
    have hbyte : String.utf8EncodeChar c = [b] := by
      rw [← encode_toNat, hc, encode, if_pos (by omega), UInt8.ofNat_toNat]
    have hkept : IsKept (.ofChar c) := (isKept_ofChar_iff c).mpr (.inl (by omega))
    have hone : IsPrintableText [b] :=
      ⟨[c], by rw [List.flatMap_singleton, hbyte], List.forall_mem_singleton.mpr hkept⟩
    exact hone.append (ih hs)

theorem isPrintableText_flatMap_escape (s : Bytes) : IsPrintableText (s.flatMap escape) := by
  refine isPrintableText_of_forall fun x hx => ?_
  obtain ⟨b, -, hb⟩ := List.mem_flatMap.mp hx
  exact printable_of_mem_escape b x hb

theorem isPrintableText_spelled (c : Char) :
    IsPrintableText (spelled (.ofChar c) (String.utf8EncodeChar c)) := by
  rw [spelled]
  split
  · rename_i hkept
    exact ⟨[c], (List.flatMap_singleton _ _).symm, List.forall_mem_singleton.mpr hkept⟩
  · exact isPrintableText_flatMap_escape _

/-- Sanitized text consists of characters that are kept. -/
theorem isPrintableText_sanitize (s : Bytes) : IsPrintableText (sanitize s) := by
  induction s using text_induction with
  | nil => exact ⟨[], rfl, nofun⟩
  | byte b rest h ih =>
    rw [sanitize_cons_of_malformed h]
    exact (isPrintableText_of_forall (printable_of_mem_escape b)).append ih
  | character c rest ih =>
    rw [sanitize_utf8EncodeChar_append]
    exact (isPrintableText_spelled c).append ih

/-- Text that consists of characters which are kept is sanitized already. -/
theorem IsPrintableText.sanitize_eq (hs : IsPrintableText s) : sanitize s = s := by
  obtain ⟨chars, rfl, hchars⟩ := hs
  induction chars with
  | nil => rfl
  | cons c chars ih =>
    obtain ⟨hc, hchars⟩ := List.forall_mem_cons.mp hchars
    rw [List.flatMap_cons, sanitize_utf8EncodeChar_append, spelled, if_pos hc, ih hchars]

/-- Characters that are kept are no noncharacters. -/
theorem not_isNoncharacter_of_isKept {c : Char} (h : IsKept (.ofChar c)) :
    ¬ IsNoncharacter c.toNat := by
  rw [isKept_ofChar_iff] at h
  unfold IsNoncharacter at h ⊢
  omega

/-! ## Sanitizing -/

/-- The digits that bytes are escaped with. -/
def hexDigits : Bytes := ascii "0123456789ABCDEF"

theorem hexDigits_getElem? : ∀ n < 16, hexDigits[n]? = some (hexDigit n) := by decide

theorem escape_eq (b : UInt8) : ∃ high low, hexDigits[b.toNat / 16]? = some high ∧
    hexDigits[b.toNat % 16]? = some low ∧ escape b = [byte '<', high, low, byte '>'] := by
  have hhigh : b.toNat / 16 < 16 := by have := b.toNat_lt; omega
  have hlow : b.toNat % 16 < 16 := Nat.mod_lt _ (by omega)
  exact ⟨_, _, hexDigits_getElem? _ hhigh, hexDigits_getElem? _ hlow, rfl⟩

/-- Sanitized text is appended to its label, and it is safe to print.

* It is made of the elements of the text, one after the other: each is kept as it is, or all of its
  bytes are spelled as two hexadecimal digits in angle brackets.
* It is the encoding of characters none of which is a noncharacter, and no byte of it is a control
  character of ASCII.
* To sanitize it again changes nothing.
* To sanitize the parts before and after a boundary is to sanitize the whole. -/
theorem sanitized_text_spells_elements (s : Bytes) :
    (∀ label, Log.untrusted label s =
      label ++ (text.spans s).flatMap fun span => spelled span.1 span.2) ∧
    (∀ b : UInt8, ∃ high low, hexDigits[b.toNat / 16]? = some high ∧
      hexDigits[b.toNat % 16]? = some low ∧ escape b = [byte '<', high, low, byte '>']) ∧
    sanitize s = (text.spans s).flatMap (fun span => spelled span.1 span.2) ∧
    (∃ chars : List Char, sanitize s = chars.flatMap String.utf8EncodeChar ∧
      ∀ c ∈ chars, ¬ IsNoncharacter c.toNat) ∧
    IsClean (sanitize s) ∧
    sanitize (sanitize s) = sanitize s ∧
    ∀ n, text.isBoundary s n = true →
      sanitize s = sanitize (s.take n) ++ sanitize (s.drop n) := by
  refine ⟨fun label => ?_, escape_eq, sanitize_eq_flatMap_spans s, ?_, isClean_sanitize s,
    (isPrintableText_sanitize s).sanitize_eq, fun n hn => ?_⟩
  · rw [Log.untrusted, sanitize_eq_flatMap_spans]
  · obtain ⟨chars, hchars, hkept⟩ := isPrintableText_sanitize s
    exact ⟨chars, hchars, fun c hc => not_isNoncharacter_of_isKept (hkept c hc)⟩
  · have hspans := (Reading.isBoundary_iff_stops.mp hn).spans_eq_append
    rw [sanitize_eq_flatMap_spans, sanitize_eq_flatMap_spans, sanitize_eq_flatMap_spans, hspans,
      List.flatMap_append]

/-- An accented letter is kept, the control character after it and the byte at the end are escaped,
and sanitizing the letter and what follows it on their own gives the same. -/
theorem sanitized_text_spells_elements_accent :
    let s : Bytes := [0xC3, 0xA9, 0xC2, 0x8D, 0xFF]
    sanitize s = [0xC3, 0xA9] ++ ascii "<C2><8D><FF>" ∧
    text.isBoundary s 2 = true ∧
    sanitize s = sanitize [0xC3, 0xA9] ++ sanitize [0xC2, 0x8D, 0xFF] := by
  intro s
  have hboundary : text.isBoundary s 2 = true := by decide
  obtain ⟨-, -, hspelled, -, -, -, hcut⟩ := sanitized_text_spells_elements s
  exact ⟨hspelled.trans (by decide), hboundary, hcut 2 hboundary⟩

end Utf8
end PrefixMatching
