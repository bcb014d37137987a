import Mathlib.Logic.Function.Iterate
import PrefixMatching.Proofs.Stops
import PrefixMatching.Proofs.Utf8.Characters

/-!
# Boundaries of text

The reading of text can be taken up in the middle: continuation bytes and first bytes are
different bytes, so no character starts inside another one. Hence a look back over three bytes
tells whether decoding from the start comes by at an offset.
-/

namespace PrefixMatching
namespace Utf8

variable {lead : UInt8} {text : Bytes} {n : Nat}

/-- A continuation byte is read on its own. -/
theorem decode_of_isContinuation (h : isContinuation lead = true) (text : Bytes) :
    decode lead text = malformed := by
  unfold decode
  rw [leadWidth_of_isContinuation h]

/-- Text can be taken up between any two characters. -/
instance : Reading.text.Synchronizing where
  extra_le_lookBack lead text := by
    show (decode lead text).extra ≤ 3
    rcases decode_eq_malformed_or lead text with hmal | ⟨continuations, rest, rfl, hchar⟩
    · rw [hmal]
      exact Nat.zero_le _
    · rw [decode_append hchar]
      exact hchar.length_le
  extra_eq_zero_of_inside {lead text i d} hi hd := by
    change i < (decode lead text).extra at hi
    obtain ⟨x, tail, hdrop, rfl⟩ := Reading.decodeAt?_eq_some_iff.mp hd
    show (decode x tail).extra = 0
    rcases decode_eq_malformed_or lead text with hmal | ⟨continuations, rest, rfl, hchar⟩
    · rw [hmal] at hi
      exact absurd hi (Nat.not_lt_zero _)
    · rw [decode_append hchar] at hi
      rw [List.drop_append_of_le_length (Nat.le_of_lt hi), List.drop_eq_getElem_cons hi,
        List.cons_append, List.cons.injEq] at hdrop
      have hx : isContinuation x = true := by
        rw [← hdrop.1]
        exact List.all_eq_true.mp hchar.continues _ (List.getElem_mem hi)
      rw [decode_of_isContinuation hx]
      rfl
  decode_take {lead text n} hn := by
    change (decode lead text).extra ≤ n at hn
    show decode lead (text.take n) = decode lead text
    rcases decode_eq_malformed_or lead text with hmal | ⟨continuations, rest, rfl, hchar⟩
    · rcases decode_eq_malformed_or lead (text.take n) with
        hmal' | ⟨continuations, rest, htake, hchar⟩
      · rw [hmal, hmal']
      · -- a character in the beginning of the text stands in the whole text
        have hwhole : text = continuations ++ (rest ++ text.drop n) := by
          rw [← List.append_assoc, ← htake, List.take_append_drop]
        rw [htake, decode_append hchar, hwhole, decode_append hchar]
    · rw [decode_append hchar] at hn
      rw [List.take_append, List.take_of_length_le hn, decode_append hchar, decode_append hchar]

/-- The width of the element at an offset. -/
theorem width_decodeAt (s : Bytes) (offset : Nat) :
    (decodeAt s offset).2 = ((Reading.text.decodeAt? s offset).map Decoded.width).getD 0 := by
  unfold decodeAt Reading.decodeAt?
  cases s.drop offset with
  | nil => rfl
  | cons lead text => rfl

/-- Reading stops where adding up widths from the start leads. -/
theorem stops_text_iff {s : Bytes} :
    Reading.text.Stops s n ↔ ∃ k, (fun offset => offset + (decodeAt s offset).2)^[k] 0 = n := by
  constructor
  · intro h
    induction h with
    | start => exact ⟨0, rfl⟩
    | next _ hd ih =>
      obtain ⟨k, rfl⟩ := ih
      refine ⟨k + 1, ?_⟩
      rw [Function.iterate_succ_apply', width_decodeAt, hd]
      rfl
  · rintro ⟨k, rfl⟩
    induction k with
    | zero => exact .start
    | succ k ih =>
      rw [Function.iterate_succ_apply', width_decodeAt]
      generalize (fun offset => offset + (decodeAt s offset).2)^[k] 0 = offset at ih ⊢
      -- past the end the width is zero and the chain stands still
      cases hd : Reading.text.decodeAt? s offset with
      | none => exact ih
      | some d => exact ih.next hd

/-- The look back over three bytes agrees with decoding from the start: the boundaries are the
offsets on the chain of widths, the end among them, and nothing past the end. -/
theorem isBoundary_text_iff_reached (s : Bytes) :
    (∀ n, Reading.text.isBoundary s n = true ↔
      ∃ k, (fun offset => offset + (decodeAt s offset).2)^[k] 0 = n) ∧
    Reading.text.isBoundary s s.length = true ∧
    ∀ n, s.length < n → Reading.text.isBoundary s n = false := by
  refine ⟨fun n => Reading.isBoundary_iff_stops.trans stops_text_iff, ?_, fun n hn => ?_⟩
  · exact Reading.isBoundary_iff_stops.mpr (Reading.stops_length s)
  · rw [← Bool.not_eq_true, Reading.isBoundary_iff_stops]
    intro h
    have := h.le_length
    omega

end Utf8
end PrefixMatching
