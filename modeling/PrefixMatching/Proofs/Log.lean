import PrefixMatching.Log
import PrefixMatching.Proofs.Decimals
import PrefixMatching.Proofs.Utf8.Ascii

/-!
# Log lines are single lines

A text without control characters of ASCII is clean. Sanitized text is clean whatever its bytes
were (`isClean_sanitize`), and so is the time stamp of every instant (`Log.isClean_stamp`). What is
logged is therefore exactly one line as long as the message has no line feed
(`Log.isLine_line_iff`).
-/

namespace PrefixMatching

/-- Whether a text holds no control character of ASCII. -/
def IsClean (s : Bytes) : Prop := ∀ b ∈ s, 0x20 ≤ b.toNat ∧ b.toNat ≠ 0x7F

instance : DecidablePred IsClean :=
  List.decidableBAll fun b : UInt8 => 0x20 ≤ b.toNat ∧ b.toNat ≠ 0x7F

@[simp]
theorem isClean_append {s t : Bytes} : IsClean (s ++ t) ↔ IsClean s ∧ IsClean t :=
  List.forall_mem_append

theorem IsClean.cons {b : UInt8} {s : Bytes} (hb : 0x20 ≤ b.toNat ∧ b.toNat ≠ 0x7F)
    (hs : IsClean s) : IsClean (b :: s) :=
  List.forall_mem_cons.mpr ⟨hb, hs⟩

/-- A clean text has no line feed. -/
theorem IsClean.lineFeed_not_mem {s : Bytes} (hs : IsClean s) : 0x0A ∉ s := by
  intro hmem
  have hle : 0x20 ≤ (0x0A : UInt8).toNat := (hs _ hmem).1
  revert hle
  decide

/-! ## Sanitized text -/

namespace Utf8

/-- Hexadecimal digits are printable ASCII. -/
theorem hexDigit_printable : ∀ n < 16, 0x20 ≤ (hexDigit n).toNat ∧ (hexDigit n).toNat ≤ 0x7E := by
  decide

/-- Escaped bytes are printable ASCII. -/
theorem printable_of_mem_escape (b : UInt8) :
    ∀ x ∈ escape b, 0x20 ≤ x.toNat ∧ x.toNat ≤ 0x7E := by
  have hhigh : b.toNat / 16 < 16 := by have := b.toNat_lt; omega
  have hlow : b.toNat % 16 < 16 := Nat.mod_lt _ (by omega)
  have hopen : 0x20 ≤ (byte '<').toNat ∧ (byte '<').toNat ≤ 0x7E := by decide
  have hclose : 0x20 ≤ (byte '>').toNat ∧ (byte '>').toNat ≤ 0x7E := by decide
  simp [escape, hopen, hclose, hexDigit_printable _ hhigh, hexDigit_printable _ hlow]

theorem isClean_escape (b : UInt8) : IsClean (escape b) := by
  intro x hx
  have hprintable := printable_of_mem_escape b x hx
  omega

/-- The first byte of a printable element is no control character. -/
theorem clean_of_isPrintable {b : UInt8} {rest : Bytes} (h : isPrintable (decode b rest) = true) :
    0x20 ≤ b.toNat ∧ b.toNat ≠ 0x7F := by
  by_cases hb : b.toNat < 0x80
  · rw [decode_of_lt hb, isPrintable, if_pos rfl] at h
    simp only [Bool.and_eq_true, decide_eq_true_eq] at h
    omega
  · omega

theorem isClean_sanitizeFrom (owed : Nat) (s : Bytes) (howed : ∀ b ∈ s.take owed, 0x80 ≤ b.toNat) :
    IsClean (sanitizeFrom owed s) := by
  fun_induction sanitizeFrom owed s with
  | case1 => exact nofun
  | case2 owed b rest ih =>
    have hb : 0x80 ≤ b.toNat := howed b List.mem_cons_self
    exact .cons (by omega) (ih fun c hc => howed c (List.mem_cons_of_mem b hc))
  | case3 b rest hprintable ih =>
    -- the further bytes of a kept character lie past ASCII
    exact .cons (clean_of_isPrintable hprintable) (ih fun c hc => le_of_mem_take_extra_decode hc)
  | case4 b rest _ ih => exact isClean_append.mpr ⟨isClean_escape b, ih nofun⟩

/-- Sanitized text has no control characters. -/
theorem isClean_sanitize (s : Bytes) : IsClean (sanitize s) := isClean_sanitizeFrom 0 s nofun

end Utf8

/-! ## Time stamps -/

/-- Digits are no control characters. -/
theorem isClean_of_digits {s : Bytes} (h : ∀ b ∈ s, ∃ d < 10, b = digit d) : IsClean s := by
  intro b hb
  obtain ⟨d, hd, rfl⟩ := h b hb
  rw [toNat_digit_of_lt hd]
  omega

theorem isClean_paddedDecimal (width n : Nat) : IsClean (paddedDecimal width n) :=
  isClean_of_digits fun _ => exists_digit_of_mem_paddedDecimal

theorem isClean_signedDecimal (n : Int) : IsClean (signedDecimal n) := by
  have hdecimal : IsClean (decimal n.natAbs) :=
    isClean_of_digits fun _ => exists_digit_of_mem_decimal
  have hminus : IsClean (ascii "-") := by decide
  unfold signedDecimal
  split
  · exact isClean_append.mpr ⟨hminus, hdecimal⟩
  · exact hdecimal

theorem Timestamp.isClean_civil (t : Timestamp) : IsClean t.civil := by
  have hdash : IsClean (ascii "-") := by decide
  have hcolon : IsClean (ascii ":") := by decide
  have hblank : IsClean (ascii " ") := by decide
  simp only [civil, isClean_append, isClean_paddedDecimal, hdash, hcolon, hblank, and_self]

/-- Whatever the arithmetic makes of an instant, its time stamp is clean. -/
theorem Log.isClean_stamp (arithmetic : SignedArithmetic) (ns : Int) :
    IsClean (stamp arithmetic ns) := by
  have hpoint : IsClean (ascii ".") := by decide
  have hzeros (n : Nat) : IsClean (List.replicate n (byte '0')) := by
    intro b hb
    rw [List.eq_of_mem_replicate hb]
    decide
  have hunknown : IsClean (ascii "<unknown time>") := by decide
  unfold stamp Timestamp.format?
  dsimp only
  split
  · simp only [Option.getD_some, isClean_append, Timestamp.isClean_civil, hpoint, hzeros,
      isClean_signedDecimal, and_self]
  · exact hunknown

/-! ## Lines -/

namespace Log

/-- Whether a text is exactly one line with its line feed. -/
def IsLine (text : Bytes) : Prop := ∃ body, text = body ++ [0x0A] ∧ 0x0A ∉ body

/-- A message is logged as one line, unless it holds a line feed itself. -/
theorem isLine_line_iff {stamp message : Bytes} (hstamp : IsClean stamp) :
    IsLine (line stamp message) ↔ 0x0A ∉ message := by
  have hline : line stamp message = (stamp ++ ascii " " ++ message) ++ [0x0A] := rfl
  have hbody : 0x0A ∈ stamp ++ ascii " " ++ message ↔ 0x0A ∈ message := by
    have hblank : (0x0A : UInt8) ∉ ascii " " := by decide
    simp only [List.mem_append, hstamp.lineFeed_not_mem, hblank, false_or]
  constructor
  · rintro ⟨body, htext, hnot⟩
    rw [hline] at htext
    rw [← hbody, List.append_cancel_right htext]
    exact hnot
  · intro h
    exact ⟨_, hline, fun hmem => h (hbody.mp hmem)⟩

/-- A message about data from outside is clean if its label is. -/
theorem isClean_untrusted {label : Bytes} (hlabel : IsClean label) (data : Bytes) :
    IsClean (untrusted label data) :=
  isClean_append.mpr ⟨hlabel, Utf8.isClean_sanitize data⟩

end Log
end PrefixMatching
