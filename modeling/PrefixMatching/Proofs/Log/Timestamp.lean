import Mathlib.Data.List.Forall2
import PrefixMatching.Element
import PrefixMatching.Log.Timestamp
import PrefixMatching.Proofs.Calendar
import PrefixMatching.Proofs.Decimals

/-!
# Time stamps are exact and ordered

A time stamp is written in fields of fixed widths, so it is read back from its text
(`ofText_text`). What it denotes is counted in days from 1970-01-01 (`Denotes`), and the time stamp
of an instant denotes the microsecond of the instant (`denotes_ofNanoseconds`). Later microseconds
have a later date, or a later time on the same day (`ofNanoseconds_cases`), and the fields are
compared in this order (`text_lt`).

Instants of 64 bits are in the years 1677 to 2262 (`year_ofNanoseconds_bounds`), so an instant has
the text of its time stamp where its second is converted exactly (`format?_eq`). That is so in any
arithmetic but for the first instants of the clock, whose second began before it
(`result_wholeSecond`). There the arithmetic decides (`first_second_can_wrap`).
-/

namespace PrefixMatching
namespace Timestamp

variable {t t' : Timestamp} {ns ns' : Int} {width n : Nat} {s : Bytes}

/-! ## The form of a text -/

/-- The form of a time stamp: letters stand for digits. -/
def form : List Char := "yyyy-MM-dd hh:mm:ss.uuuuuu".toList

/-- Whether a byte is what a character of the form stands for. -/
def FitsForm (c : Char) (b : UInt8) : Prop :=
  if c.isAlpha then Element.isDigit b.toNat = true else b = byte c

instance (c : Char) (b : UInt8) : Decidable (FitsForm c b) :=
  inferInstanceAs (Decidable (if c.isAlpha then Element.isDigit b.toNat = true else b = byte c))

/-- Whether a text has the form of a time stamp. -/
def HasForm (s : Bytes) : Prop := List.Forall₂ FitsForm form s

theorem length_eq_of_hasForm (h : HasForm s) : s.length = 26 := h.length_eq.symm

theorem forall₂_paddedDecimal {letters : List Char} (h : letters.all Char.isAlpha = true)
    (n : Nat) : List.Forall₂ FitsForm letters (paddedDecimal letters.length n) := by
  rw [List.forall₂_iff_zip, length_paddedDecimal]
  refine ⟨rfl, fun {c b} hmem => ?_⟩
  obtain ⟨hc, hb⟩ := List.of_mem_zip hmem
  obtain ⟨d, hd, rfl⟩ := exists_digit_of_mem_paddedDecimal hb
  rw [FitsForm, if_pos (List.all_eq_true.mp h c hc), toNat_digit_of_lt hd]
  simp only [Element.isDigit, Element.isBetween, Bool.and_eq_true, decide_eq_true_eq]
  omega

/-- A field, the separator behind it and what follows have the form of the three. -/
theorem forall₂_field {letters rest : List Char} {c : Char} {b : UInt8}
    (h : letters.all Char.isAlpha = true) (n : Nat) (hseparator : FitsForm c b)
    (hrest : List.Forall₂ FitsForm rest s) :
    List.Forall₂ FitsForm (letters ++ ([c] ++ rest))
      (paddedDecimal letters.length n ++ ([b] ++ s)) :=
  List.rel_append (forall₂_paddedDecimal h n) (.cons hseparator hrest)

/-- The time of day as text, each field with what follows it. -/
def timeText (t : Timestamp) : Bytes :=
  paddedDecimal 2 t.hour ++ ([0x3A] ++ (paddedDecimal 2 t.minute ++ ([0x3A] ++
    (paddedDecimal 2 t.second ++ ([0x2E] ++ paddedDecimal 6 t.microsecond)))))

theorem text_eq (t : Timestamp) : t.text =
    paddedDecimal 4 t.date.year.toNat ++ ([0x2D] ++ (paddedDecimal 2 t.date.month ++ ([0x2D] ++
      (paddedDecimal 2 t.date.day ++ ([0x20] ++ t.timeText))))) := by
  simp only [text, civil, timeText, List.append_assoc]
  rfl

theorem form_eq : form =
    ['y', 'y', 'y', 'y'] ++ (['-'] ++ (['M', 'M'] ++ (['-'] ++ (['d', 'd'] ++ ([' '] ++
      (['h', 'h'] ++ ([':'] ++ (['m', 'm'] ++ ([':'] ++ (['s', 's'] ++ (['.'] ++
        ['u', 'u', 'u', 'u', 'u', 'u']))))))))))) := by decide

theorem hasForm_text (t : Timestamp) : HasForm t.text := by
  rw [HasForm, form_eq, text_eq]
  refine forall₂_field (by decide) _ (by decide) ?_
  refine forall₂_field (by decide) _ (by decide) ?_
  refine forall₂_field (by decide) _ (by decide) ?_
  refine forall₂_field (by decide) _ (by decide) ?_
  refine forall₂_field (by decide) _ (by decide) ?_
  refine forall₂_field (by decide) _ (by decide) ?_
  exact forall₂_paddedDecimal (by decide) _

/-! ## Reading a text -/

/-- The number in the first bytes of a text, and what follows the byte behind them. -/
def field (width : Nat) (s : Bytes) : Nat × Bytes :=
  (digitsValue (s.take width), s.drop (width + 1))

/-- The time stamp that a text of the form shows. -/
def ofText (s : Bytes) : Timestamp :=
  let year := field 4 s
  let month := field 2 year.2
  let day := field 2 month.2
  let hour := field 2 day.2
  let minute := field 2 hour.2
  let second := field 2 minute.2
  let microsecond := field 6 second.2
  { date := ⟨year.1, month.1, day.1⟩
    hour := hour.1
    minute := minute.1
    second := second.1
    microsecond := microsecond.1 }

theorem field_append (h : n < 10 ^ width) (b : UInt8) (s : Bytes) :
    field width (paddedDecimal width n ++ ([b] ++ s)) = (n, s) := by
  have hlength := length_paddedDecimal width n
  rw [field, List.take_left' hlength, digitsValue_paddedDecimal h, ← List.append_assoc,
    List.drop_left' (by rw [List.length_append, hlength, List.length_singleton])]

theorem field_last (h : n < 10 ^ width) : field width (paddedDecimal width n) = (n, []) := by
  have hlength := length_paddedDecimal width n
  rw [field, List.take_of_length_le hlength.le, digitsValue_paddedDecimal h,
    List.drop_of_length_le (by omega)]

/-- Whether all parts of a time stamp are in their ranges. -/
structure IsValid (t : Timestamp) : Prop where
  date : t.date.isValid = true
  hour : t.hour < 24
  minute : t.minute < 60
  second : t.second < 60
  microsecond : t.microsecond < 1000000

/-- A valid time stamp of a year of four digits is read back from its text. -/
theorem ofText_text (h : t.IsValid) (hlow : 0 ≤ t.date.year) (hhigh : t.date.year < 10000) :
    ofText t.text = t := by
  obtain ⟨⟨hmonthLow, hmonth⟩, hdayLow, hday⟩ := Date.isValid_iff.mp h.date
  have hlength := Date.daysInMonth_le t.date.year t.date.month
  obtain ⟨-, hhour, hminute, hsecond, hmicrosecond⟩ := h
  have hyearText : t.date.year.toNat < 10 ^ 4 := by omega
  have hmonthText : t.date.month < 10 ^ 2 := by omega
  have hdayText : t.date.day < 10 ^ 2 := by omega
  have hhourText : t.hour < 10 ^ 2 := by omega
  have hminuteText : t.minute < 10 ^ 2 := by omega
  have hsecondText : t.second < 10 ^ 2 := by omega
  have hmicrosecondText : t.microsecond < 10 ^ 6 := hmicrosecond
  simp only [ofText, text_eq, timeText, field_append hyearText, field_append hmonthText,
    field_append hdayText, field_append hhourText, field_append hminuteText,
    field_append hsecondText, field_last hmicrosecondText, Int.toNat_of_nonneg hlow]

/-! ## What a time stamp denotes -/

/-- Whether a time stamp denotes a number of microseconds after 1970-01-01. -/
def Denotes (t : Timestamp) (microseconds : Int) : Prop :=
  ∃ day, Date.IsDay day t.date ∧
    microseconds = 1000000 * (86400 * day + 3600 * t.hour + 60 * t.minute + t.second) +
      t.microsecond

/-- The day that an instant falls into. -/
def dayOf (ns : Int) : Int := ns / 1000 / 1000000 / 86400

theorem isValid_ofNanoseconds (ns : Int) : (ofNanoseconds ns).IsValid where
  date := Date.isValid_ofDays _
  hour := by
    unfold ofNanoseconds
    dsimp only
    omega
  minute := Nat.mod_lt _ (by decide)
  second := Nat.mod_lt _ (by decide)
  microsecond := by
    unfold ofNanoseconds
    dsimp only
    omega

/-- The time stamp of an instant denotes the microsecond that the instant falls into. -/
theorem denotes_ofNanoseconds (ns : Int) : (ofNanoseconds ns).Denotes (ns / 1000) := by
  refine ⟨dayOf ns, Date.isDay_iff.mpr rfl, ?_⟩
  unfold ofNanoseconds dayOf
  dsimp only
  omega

/-! ## Order -/

/-- Whether a time of day is before another one: by the hour, the minute, the second and then the
microsecond. -/
def IsEarlier (t t' : Timestamp) : Prop :=
  t.hour < t'.hour ∨ t.hour = t'.hour ∧ (t.minute < t'.minute ∨ t.minute = t'.minute ∧
    (t.second < t'.second ∨ t.second = t'.second ∧ t.microsecond < t'.microsecond))

/-- A later microsecond has a later date, or a later time on the same day. -/
theorem ofNanoseconds_cases (h : ns / 1000 < ns' / 1000) :
    (ofNanoseconds ns).date.Precedes (ofNanoseconds ns').date ∨
      (ofNanoseconds ns).date = (ofNanoseconds ns').date ∧
        (ofNanoseconds ns).IsEarlier (ofNanoseconds ns') := by
  -- on the same day the order is that of the rests
  rcases Int.lt_or_le (dayOf ns) (dayOf ns') with hlt | hge
  · exact .inl (Date.precedes_ofDays hlt)
  · have hday : dayOf ns = dayOf ns' := by
      unfold dayOf at *
      omega
    refine .inr ⟨congrArg Date.ofDays hday, ?_⟩
    unfold IsEarlier ofNanoseconds dayOf at *
    dsimp only
    omega

theorem timeText_lt (h' : t'.IsValid) (h : t.IsEarlier t') : t.timeText < t'.timeText := by
  obtain ⟨-, hhour, hminute, hsecond, hmicrosecond⟩ := h'
  refine paddedDecimal_append_lt (by omega) (h.imp_right (.imp_right fun h => ?_))
  refine List.append_left_lt (paddedDecimal_append_lt (by omega) ?_)
  refine h.imp_right (.imp_right fun h => ?_)
  refine List.append_left_lt (paddedDecimal_append_lt (by omega) ?_)
  refine h.imp_right (.imp_right fun h => ?_)
  exact List.append_left_lt (paddedDecimal_lt h hmicrosecond)

/-- Texts are compared field by field. -/
theorem text_lt (h' : t'.IsValid) (hlow : 0 ≤ t.date.year) (hhigh : t'.date.year < 10000)
    (h : t.date.Precedes t'.date ∨ t.date = t'.date ∧ t.IsEarlier t') : t.text < t'.text := by
  obtain ⟨⟨hmonthLow, hmonth⟩, hdayLow, hday⟩ := Date.isValid_iff.mp h'.date
  have hlength := Date.daysInMonth_le t'.date.year t'.date.month
  have hfields : t.date.year < t'.date.year ∨ t.date.year = t'.date.year ∧
      (t.date.month < t'.date.month ∨ t.date.month = t'.date.month ∧
        (t.date.day < t'.date.day ∨ t.date.day = t'.date.day ∧ t.timeText < t'.timeText)) := by
    rcases h with hbefore | ⟨hdate, hearlier⟩
    · exact hbefore.imp_right (.imp_right (.imp_right (.imp_right .inl)))
    · rw [hdate]
      exact .inr ⟨rfl, .inr ⟨rfl, .inr ⟨rfl, timeText_lt h' hearlier⟩⟩⟩
  -- only the fields of the greater text need to fit their widths
  rw [text_eq, text_eq]
  refine paddedDecimal_append_lt (by omega) ?_
  refine hfields.imp (by omega) (.imp (congrArg Int.toNat) fun h => ?_)
  refine List.append_left_lt (paddedDecimal_append_lt (by omega) ?_)
  refine h.imp_right (.imp_right fun h => ?_)
  refine List.append_left_lt (paddedDecimal_append_lt (by omega) ?_)
  exact h.imp_right (.imp_right List.append_left_lt)

/-! ## Instants of 64 bits -/

/-- The first and the last day of the clock are in the years 1677 and 2262. -/
theorem year_ofNanoseconds_bounds (hlow : -2 ^ 63 ≤ ns) (hhigh : ns < 2 ^ 63) :
    1677 ≤ (ofNanoseconds ns).date.year ∧ (ofNanoseconds ns).date.year ≤ 2262 := by
  have hfirst : Date.ofDays (-106752) = ⟨1677, 9, 21⟩ := by decide
  have hlast : Date.ofDays 106751 = ⟨2262, 4, 11⟩ := by decide
  have hday : (ofNanoseconds ns).date = Date.ofDays (dayOf ns) := rfl
  have hrange : -106752 ≤ dayOf ns ∧ dayOf ns ≤ 106751 := by
    unfold dayOf
    omega
  have hlower := Date.year_ofDays_le hrange.1
  have hupper := Date.year_ofDays_le hrange.2
  rw [hfirst] at hlower
  rw [hlast] at hupper
  exact ⟨hlower, hupper⟩

theorem length_civil (t : Timestamp) : t.civil.length = 19 := by
  simp only [civil, List.length_append, length_paddedDecimal]
  rfl

theorem result_eq_self (arithmetic : SignedArithmetic) {number : Int} (hlow : -2 ^ 63 ≤ number)
    (hhigh : number < 2 ^ 63) : arithmetic.result number = number :=
  arithmetic.result_of_fits hlow (Int.le_of_lt_add_one hhigh)

/-- The second that an instant falls into, in nanoseconds. -/
def wholeSecond (ns : Int) : Int := 1000000000 * (ns / 1000000000)

/-- A second that begins after the clock does is converted to nanoseconds exactly. -/
theorem result_wholeSecond (arithmetic : SignedArithmetic) (hlow : -9223372036000000000 ≤ ns)
    (hhigh : ns < 2 ^ 63) : arithmetic.result (wholeSecond ns) = wholeSecond ns := by
  unfold wholeSecond
  exact result_eq_self arithmetic (by omega) (by omega)

/-- The second of an instant has the same date and time of day. -/
theorem ofNanoseconds_wholeSecond (ns : Int) :
    ofNanoseconds (wholeSecond ns) = { ofNanoseconds ns with microsecond := 0 } := by
  have hseconds : wholeSecond ns / 1000 / 1000000 = ns / 1000 / 1000000 := by
    unfold wholeSecond
    omega
  have hfraction : (wholeSecond ns / 1000 % 1000000).toNat = 0 := by
    unfold wholeSecond
    omega
  simp only [ofNanoseconds, hseconds, hfraction]

/-- The microseconds of an instant, as its distance from its second. -/
theorem signedDecimal_fraction (ns : Int) :
    signedDecimal ((ns - wholeSecond ns).tdiv 1000) = decimal (ofNanoseconds ns).microsecond := by
  have hdistance : 0 ≤ ns - wholeSecond ns := by
    unfold wholeSecond
    omega
  have hmicrosecond : ((ns - wholeSecond ns) / 1000).natAbs = (ofNanoseconds ns).microsecond := by
    unfold ofNanoseconds wholeSecond
    dsimp only
    omega
  rw [Int.tdiv_eq_ediv_of_nonneg hdistance, signedDecimal, if_neg (by omega), hmicrosecond]

/-- An instant of 64 bits has the text of its time stamp if its second is converted exactly. -/
theorem format?_eq {arithmetic : SignedArithmetic} (hlow : -2 ^ 63 ≤ ns) (hhigh : ns < 2 ^ 63)
    (hsecond : arithmetic.result (wholeSecond ns) = wholeSecond ns) :
    format? arithmetic ns = some (ofNanoseconds ns).text := by
  have hdistance : arithmetic.result (ns - wholeSecond ns) = ns - wholeSecond ns := by
    unfold wholeSecond
    exact result_eq_self arithmetic (by omega) (by omega)
  have hback : 1000000000 * (wholeSecond ns).tdiv 1000000000 = wholeSecond ns := by
    rw [wholeSecond, Int.mul_tdiv_cancel_left _ (by decide)]
  have hyear := year_ofNanoseconds_bounds hlow hhigh
  have hcivil : ({ ofNanoseconds ns with microsecond := 0 } : Timestamp).civil =
      (ofNanoseconds ns).civil := rfl
  have hfits : fitsYear (ofNanoseconds ns).date.year = true := by
    have hmin : Int32.minValue.toInt = -2147483648 := rfl
    have hmax : Int32.maxValue.toInt = 2147483647 := rfl
    simp only [fitsYear, hmin, hmax, Bool.and_eq_true, decide_eq_true_eq]
    omega
  have hcapacity : (ofNanoseconds ns).civil.length < civilCapacity := by
    rw [length_civil]
    decide
  -- the microseconds have six digits at most, so only zeros are missing
  have hpadded := paddedDecimal_eq_replicate (by decide : 0 < 6)
    (isValid_ofNanoseconds ns).microsecond
  have hmin : ∀ length, 6 - min 6 length = 6 - length := by omega
  rw [format?, ← wholeSecond, hsecond]
  simp only [hdistance, hback, ofNanoseconds_wholeSecond, signedDecimal_fraction, hcivil, hfits,
    hcapacity, hmin, decide_true, Bool.and_self, if_true, List.append_assoc, ← hpadded]
  simp only [text, List.append_assoc]

/-- Where the second of an instant is converted exactly, so is the second of every later one. -/
theorem result_wholeSecond_of_le {arithmetic : SignedArithmetic} (hlow : -2 ^ 63 ≤ ns)
    (hsecond : arithmetic.result (wholeSecond ns) = wholeSecond ns) (hle : ns ≤ ns')
    (hhigh : ns' < 2 ^ 63) : arithmetic.result (wholeSecond ns') = wholeSecond ns' := by
  rcases Int.lt_or_le ns' (-9223372036000000000) with hfirst | hlater
  · have hsame : wholeSecond ns' = wholeSecond ns := by
      unfold wholeSecond
      omega
    rw [hsame, hsecond]
  · exact result_wholeSecond arithmetic hlater hhigh

/-- The texts of two instants are in the order of the instants. -/
theorem text_le (hlow : -2 ^ 63 ≤ ns) (hle : ns ≤ ns') (hhigh : ns' < 2 ^ 63) :
    (ofNanoseconds ns).text ≤ (ofNanoseconds ns').text := by
  have hyear := year_ofNanoseconds_bounds hlow (by omega)
  have hyear' := year_ofNanoseconds_bounds (by omega) hhigh
  have hmicroseconds : ns / 1000 ≤ ns' / 1000 := Int.ediv_le_ediv (by decide) hle
  rcases Int.lt_or_eq_of_le hmicroseconds with hlt | heq
  · exact List.le_of_lt (text_lt (isValid_ofNanoseconds _) (by omega) (by omega)
      (ofNanoseconds_cases hlt))
  · have hsame : ofNanoseconds ns = ofNanoseconds ns' := by
      simp only [ofNanoseconds, heq]
    rw [hsame]
    exact List.le_refl _

/-- Time stamps are exact and ordered over the instants of 64 bits whose second is converted
exactly. Those are all instants whose second begins after the clock does, and the others too if the
arithmetic is exact.

* Such an instant has a text of 26 bytes in the form of a time stamp.
* Read back, the text has a date of the calendar and a time of day, and denotes the microsecond that
  the instant falls into.
* A later instant has the same text or a greater one. -/
theorem log_times_are_exact_and_ordered (arithmetic : SignedArithmetic) :
    (∀ ns : Int64, -9223372036000000000 ≤ ns.toInt →
      arithmetic.result (wholeSecond ns.toInt) = wholeSecond ns.toInt) ∧
    ∀ ns : Int64, arithmetic.result (wholeSecond ns.toInt) = wholeSecond ns.toInt →
      ∃ s, format? arithmetic ns.toInt = some s ∧ HasForm s ∧ s.length = 26 ∧
        (ofText s).IsValid ∧ (ofText s).Denotes (ns.toInt / 1000) ∧
        ∀ ns' : Int64, ns ≤ ns' → ∃ s', format? arithmetic ns'.toInt = some s' ∧ s ≤ s' := by
  refine ⟨fun ns hlow => result_wholeSecond arithmetic hlow ns.toInt_lt, fun ns hsecond => ?_⟩
  have hyear := year_ofNanoseconds_bounds ns.le_toInt ns.toInt_lt
  have hvalid := isValid_ofNanoseconds ns.toInt
  have hread := ofText_text hvalid (by omega) (by omega)
  have hform := hasForm_text (ofNanoseconds ns.toInt)
  refine ⟨_, format?_eq ns.le_toInt ns.toInt_lt hsecond, hform, length_eq_of_hasForm hform, ?_, ?_,
    fun ns' hle => ?_⟩
  · rwa [hread]
  · rw [hread]
    exact denotes_ofNanoseconds ns.toInt
  · rw [Int64.le_iff_toInt_le] at hle
    have hsecond' := result_wholeSecond_of_le ns.le_toInt hsecond hle ns'.toInt_lt
    exact ⟨_, format?_eq ns'.le_toInt ns'.toInt_lt hsecond', text_le ns.le_toInt hle ns'.toInt_lt⟩

/-- The first whole second of the clock in arithmetic that wraps, and the first instant of the
clock in exact arithmetic. -/
theorem log_times_are_exact_and_ordered_first :
    (format? .wrapping (-9223372036000000000) = some (ascii "1677-09-21 00:12:44.000000") ∧
      ∃ s, format? .wrapping Int64.maxValue.toInt = some s ∧
        ascii "1677-09-21 00:12:44.000000" ≤ s) ∧
    format? .exact Int64.minValue.toInt = some (ascii "1677-09-21 00:12:43.145224") ∧
      ∃ s, format? .exact Int64.maxValue.toInt = some s ∧
        ascii "1677-09-21 00:12:43.145224" ≤ s := by
  have hwhole : format? .wrapping (-9223372036000000000 : Int64).toInt =
      some (ascii "1677-09-21 00:12:44.000000") := by decide
  have hfirst : format? .exact Int64.minValue.toInt =
      some (ascii "1677-09-21 00:12:43.145224") := by decide
  obtain ⟨hconverted, hwrapping⟩ := log_times_are_exact_and_ordered .wrapping
  obtain ⟨s, hs, -, -, -, -, hlater⟩ := hwrapping _ (hconverted (-9223372036000000000) (by decide))
  obtain rfl := Option.some.inj (hwhole.symm.trans hs)
  obtain ⟨s, hs, -, -, -, -, hlater'⟩ :=
    (log_times_are_exact_and_ordered .exact).2 Int64.minValue rfl
  obtain rfl := Option.some.inj (hfirst.symm.trans hs)
  exact ⟨⟨hwhole, hlater Int64.maxValue (by decide)⟩, hfirst, hlater' Int64.maxValue (by decide)⟩

/-- A time stamp denotes one number of microseconds only. -/
theorem Denotes.eq {microseconds microseconds' : Int} (h : t.Denotes microseconds)
    (h' : t.Denotes microseconds') : microseconds = microseconds' := by
  obtain ⟨day, hday, rfl⟩ := h
  obtain ⟨day', hday', rfl⟩ := h'
  rw [Date.isDay_iff] at hday hday'
  have hsame : day = day' := by
    rw [← Date.toDays_ofDays day, ← hday, hday', Date.toDays_ofDays]
  rw [hsame]

/-- In arithmetic that wraps, the first instant of the clock is written as one of the year 2262. -/
theorem first_second_can_wrap :
    format? .wrapping Int64.minValue.toInt = some (ascii "2262-04-11 23:47:16.145224") ∧
    ¬ ∀ (arithmetic : SignedArithmetic) (ns : Int64), ∃ s,
      format? arithmetic ns.toInt = some s ∧ (ofText s).Denotes (ns.toInt / 1000) := by
  have hfirst : format? .wrapping Int64.minValue.toInt =
      some (ascii "2262-04-11 23:47:16.145224") := by decide
  refine ⟨hfirst, fun hall => ?_⟩
  obtain ⟨s, hs, hdenotes⟩ := hall .wrapping Int64.minValue
  obtain rfl := Option.some.inj (hfirst.symm.trans hs)
  have hlast : ofText (ascii "2262-04-11 23:47:16.145224") =
      ofNanoseconds 9223372036145224000 := by decide
  have hother := denotes_ofNanoseconds 9223372036145224000
  rw [← hlast] at hother
  have hequal := hdenotes.eq hother
  revert hequal
  decide

end Timestamp
end PrefixMatching
