import Mathlib.Logic.Relation
import PrefixMatching.Proofs.Binary64.Rounding
import PrefixMatching.Proofs.Value.Tokens

/-!
# Floating-point tokens are rounded to nearest

A floating-point token denotes an exact rational (`Numeral.toRat`), which is the value of the
decimal that is made of its digits (`toRat_decimal`). So the token is decoded as this rational is
rounded, whatever its spelling: respelling a token, by zeros that do not count or by moving its
point against its exponent, keeps the rational (`Respells.toRat_eq`).
-/

namespace PrefixMatching
namespace Value

/-! ## Runs of digits -/

namespace Digits

/-- A digit and then some more. -/
def cons (d : Fin 10) (digits : Digits) : Digits := ⟨d :: digits.list, List.cons_ne_nil _ _⟩

/-- Some digits and then another one. -/
def snoc (digits : Digits) (d : Fin 10) : Digits := ⟨digits.list ++ [d], by simp⟩

end Digits

theorem digitsNumber_append (digits more : List (Fin 10)) :
    digitsNumber (digits ++ more) = digitsNumber digits * 10 ^ more.length + digitsNumber more := by
  rw [digitsNumber, List.reverse_append, List.map_append, Nat.ofDigits_append, List.length_map,
    List.length_reverse, digitsNumber, digitsNumber]
  ring

theorem digitsNumber_cons (d : Fin 10) (digits : List (Fin 10)) :
    digitsNumber (d :: digits) = d * 10 ^ digits.length + digitsNumber digits := by
  have hone : digitsNumber [d] = d := Nat.ofDigits_singleton
  rw [← List.singleton_append, digitsNumber_append, hone]

theorem digitsNumber_snoc (digits : List (Fin 10)) (d : Fin 10) :
    digitsNumber (digits ++ [d]) = digitsNumber digits * 10 + d := by
  have hone : digitsNumber [d] = d := Nat.ofDigits_singleton
  rw [digitsNumber_append, hone, List.length_singleton, pow_one]

/-! ## Exact values -/

/-- The exponent of a number, which may have none. -/
def exponentOf (exponent : Option Exponent) : ℤ := (exponent.map Exponent.value).getD 0

/-- The parts of a floating-point token. -/
structure Numeral where
  integral : Digits
  fraction : Digits
  exponent : Option Exponent

namespace Numeral

variable {n n' : Numeral}

/-- A floating-point token as a syntax tree. -/
def token (n : Numeral) : Token := .floating n.integral n.fraction n.exponent

/-- The text of a floating-point token. -/
def text (n : Numeral) : Bytes := n.token.text

/-- The exact number that a floating-point token denotes. -/
def toRat (n : Numeral) : ℚ :=
  (digitsNumber n.integral.list + digitsNumber n.fraction.list / 10 ^ n.fraction.list.length) *
    10 ^ exponentOf n.exponent

theorem toRat_nonneg (n : Numeral) : 0 ≤ n.toRat := by
  rw [toRat]
  positivity

/-- The decimal of a token has its value. -/
theorem toRat_decimal (n : Numeral) :
    (Token.decimal n.integral n.fraction n.exponent).toRat = n.toRat := by
  have hten : (10 : ℚ) ≠ 0 := by norm_num
  rw [Token.decimal, Decimal.toRat, toRat, digitsNumber_append, ← exponentOf, zpow_sub₀ hten,
    zpow_natCast]
  push_cast
  field_simp

/-! ## Spellings -/

/-- One respelling of a token that keeps its number. -/
inductive Respells : Numeral → Numeral → Prop where
  | leadingZero (n : Numeral) : Respells n { n with integral := n.integral.cons 0 }
  | trailingZero (n : Numeral) : Respells n { n with fraction := n.fraction.snoc 0 }
  /-- Another sign, other zeros, or no exponent at all. -/
  | exponent (n : Numeral) (exponent : Option Exponent)
      (h : exponentOf exponent = exponentOf n.exponent) : Respells n { n with exponent }
  /-- The point is moved to the front by one digit. -/
  | point (n : Numeral) (d : Fin 10) (exponent : Option Exponent)
      (h : exponentOf exponent = exponentOf n.exponent + 1) :
      Respells { n with integral := n.integral.snoc d }
        { n with fraction := n.fraction.cons d, exponent }

theorem Respells.toRat_eq (h : Respells n n') : n.toRat = n'.toRat := by
  have hten : (10 : ℚ) ≠ 0 := by norm_num
  cases h with
  | leadingZero =>
    simp only [toRat, Digits.cons, digitsNumber_cons, Fin.val_zero, Nat.zero_mul, Nat.zero_add]
  | trailingZero =>
    simp only [toRat, Digits.snoc, digitsNumber_snoc, List.length_append, List.length_singleton,
      pow_succ, Fin.val_zero, Nat.add_zero]
    push_cast
    rw [mul_div_mul_right _ _ hten]
  | exponent _ _ h => simp only [toRat, h]
  | point n d exponent h =>
    simp only [toRat, h, Digits.snoc, Digits.cons, digitsNumber_snoc, digitsNumber_cons,
      List.length_cons, pow_succ, zpow_add_one₀ hten]
    push_cast
    field_simp
    ring

theorem toRat_eq_of_respellings (h : Relation.EqvGen Respells n n') : n.toRat = n'.toRat := by
  induction h with
  | rel _ _ h => exact h.toRat_eq
  | refl => rfl
  | symm _ _ _ ih => exact ih.symm
  | trans _ _ _ _ _ ih ih' => exact ih.trans ih'

/-! ## Decoding -/

/-- A floating-point token is decoded as its number is rounded. -/
theorem ofToken?_eq (n : Numeral) (hfits : n.text.length < UInt64.size) :
    ofToken? n.text = (Binary64.ofRat? n.toRat).map .floating := by
  rw [text, ofToken?_text n.token hfits, token, Token.value?, Binary64.ofDecimal?_eq_ofRat?,
    toRat_decimal]

end Numeral

/-- The tokens of the floating-point form are the texts of numerals. -/
theorem classify_eq_floating_iff {token : Bytes} (hfits : token.length < UInt64.size) :
    (∃ matched rest, classify token = .ok (some (matched, .floating)) rest) ↔
      ∃ n : Numeral, n.text = token := by
  constructor
  · rintro ⟨matched, rest, h⟩
    by_cases hother : ∀ t : Token, t.text ≠ token
    · rw [classify_of_forall_ne hfits hother] at h
      cases h
    · obtain ⟨t, rfl⟩ := not_forall_not.mp hother
      rw [classify_text t hfits] at h
      have hform : t.form = .floating := congrArg Prod.snd (Option.some.inj (Match.ok.inj h).1)
      cases t with
      | floating integral fraction exponent => exact ⟨⟨integral, fraction, exponent⟩, rfl⟩
      | _ => cases hform
  · rintro ⟨n, rfl⟩
    exact ⟨_, _, classify_text n.token hfits⟩

/-- Floating-point tokens are rounded to nearest, a tie to the even significand.

* The tokens of the form are the texts of numerals, and each has an exact value.
* Nothing is denoted if the value is nearer to infinity than to the greatest finite number, or not
  zero but not above half the least positive number; a tie with infinity counts as nearer.
* Otherwise the token denotes the finite number that its value is rounded to, with a clear sign bit,
  and zero is the pattern without a bit set.
* The result depends on the value only, so no respelling changes it. -/
theorem floating_tokens_are_rounded (token : Bytes) (hfits : token.length < 2 ^ 64) :
    ((∃ matched rest, classify token = .ok (some (matched, .floating)) rest) ↔
      ∃ n : Numeral, n.text = token) ∧
    ∀ n : Numeral, n.text = token →
      (ofToken? token = none ↔
        (2 : ℚ) ^ 1024 - 2 ^ 970 ≤ n.toRat ∨ 0 < n.toRat ∧ n.toRat ≤ 2 ^ (-1075 : ℤ)) ∧
      (∀ v, ofToken? token = some v → ∃ x : Binary64, v = .floating x ∧
        x.Rounds n.toRat ∧ x.isNegative = false ∧ (n.toRat = 0 → x.bits = 0)) ∧
      (∀ n' : Numeral, n'.text.length < 2 ^ 64 → n'.toRat = n.toRat →
        ofToken? n'.text = ofToken? token) ∧
      ∀ n' : Numeral, n'.text.length < 2 ^ 64 → Relation.EqvGen Numeral.Respells n n' →
        ofToken? n'.text = ofToken? token := by
  refine ⟨classify_eq_floating_iff hfits, ?_⟩
  rintro n rfl
  have hsame : ∀ n' : Numeral, n'.text.length < 2 ^ 64 → n'.toRat = n.toRat →
      ofToken? n'.text = ofToken? n.text := by
    intro n' hfits' heq
    rw [n'.ofToken?_eq hfits', n.ofToken?_eq hfits, heq]
  refine ⟨?_, fun v hv => ?_, hsame, fun n' hfits' h => ?_⟩
  · rw [n.ofToken?_eq hfits, Option.map_eq_none_iff, Binary64.ofRat?_eq_none_iff n.toRat_nonneg]
  · rw [n.ofToken?_eq hfits, Option.map_eq_some_iff] at hv
    obtain ⟨x, hx, rfl⟩ := hv
    exact ⟨x, rfl, Binary64.rounds_of_ofRat? n.toRat_nonneg hx⟩
  · exact hsame n' hfits' (Numeral.toRat_eq_of_respellings h).symm

/-- Leading and trailing zeros, a moved point and the exponent that makes up for it. -/
theorem floating_tokens_are_rounded_respelled :
    ofToken? (ascii "012.50E-01") = ofToken? (ascii "1.25") ∧
      ofToken? (ascii "1.25") = some (.floating ⟨0x3FF4000000000000⟩) := by
  let plain : Numeral := ⟨⟨[1], by decide⟩, ⟨[2, 5], by decide⟩, none⟩
  let spelled : Numeral := ⟨⟨[0, 1, 2], by decide⟩, ⟨[5, 0], by decide⟩,
    some ⟨false, some .minus, ⟨[0, 1], by decide⟩⟩⟩
  have hsame : spelled.toRat = plain.toRat := by
    have hfive : digitsNumber [5, 0] = 50 := rfl
    have htwelve : digitsNumber [0, 1, 2] = 12 := rfl
    have hone : digitsNumber [1] = 1 := rfl
    have htail : digitsNumber [2, 5] = 25 := rfl
    have hexponent : exponentOf spelled.exponent = -1 := rfl
    have hnone : exponentOf none = 0 := rfl
    simp only [Numeral.toRat, hexponent, plain, spelled, hnone, hfive, htwelve, hone, htail]
    norm_num
  exact ⟨((floating_tokens_are_rounded (ascii "1.25") (by decide)).2 plain rfl).2.2.1 spelled
    (by decide) hsame, by decide +kernel⟩

end Value
end PrefixMatching
