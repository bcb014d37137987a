import Mathlib.Tactic.IntervalCases
import PrefixMatching.Calendar

/-!
# Days and dates

The calendar as one counts it: the day after a date is the next one in its month, or the first one
of the next month or year (`Date.next`), and the days are counted from 1970-01-01 (`IsDay`). The
formulas, which count from March, agree: the first days of months are as far apart as the months
are long (`firstDay_succ`), so the day after a date has the next number (`toDays_next`), and the
date of a number is found back (`ofDays_toDays`). As every number is reached from some date, the
date of a day is the one that counting leads to (`isDay_iff`).
-/

namespace PrefixMatching
namespace Date

variable {date date' : Date} {n : Int}

theorem isValid_iff : date.isValid = true ↔
    (1 ≤ date.month ∧ date.month ≤ 12) ∧ 1 ≤ date.day ∧
      date.day ≤ daysInMonth date.year date.month := by
  simp [isValid, and_assoc]

theorem isLeap_iff (year : Int) :
    isLeap year = true ↔ year % 4 = 0 ∧ (year % 100 ≠ 0 ∨ year % 400 = 0) := by
  simp [isLeap]

theorem one_le_daysInMonth (year : Int) (month : Nat) : 1 ≤ daysInMonth year month := by
  unfold daysInMonth
  split
  · split <;> decide
  all_goals decide

theorem daysInMonth_le (year : Int) (month : Nat) : daysInMonth year month ≤ 31 := by
  unfold daysInMonth
  split
  · split <;> decide
  all_goals decide

/-! ## Counting from March -/

/-- The year of a month, counted from March. -/
def marchYear (year : Int) (month : Nat) : Int := if month ≤ 2 then year - 1 else year

/-- A month, counted from March. -/
def marchMonth (month : Nat) : Nat := if month ≤ 2 then month + 9 else month - 3

/-- How many days the first of March of a year comes after that of the year 0. -/
def daysBefore (year : Int) : Int := 365 * year + year / 4 - year / 100 + year / 400

/-- How many days after 1970-01-01 a month begins. -/
def firstDay (year : Int) (month : Nat) : Int :=
  daysBefore (marchYear year month) + monthStart (marchMonth month) - epochDay

theorem daysBefore_eq (year : Int) :
    daysBefore year = daysPerCycle * (year / 400) + yearStart (year % 400).toNat := by
  unfold daysBefore daysPerCycle yearStart
  omega

theorem daysBefore_succ (year : Int) :
    daysBefore year = daysBefore (year - 1) + if isLeap year then 366 else 365 := by
  unfold daysBefore
  split_ifs with hleap <;> rw [isLeap_iff] at hleap <;> omega

theorem toDays_eq (date : Date) :
    date.toDays = firstDay date.year date.month + (date.day - 1 : ℕ) := by
  have hunfold : date.toDays = daysPerCycle * (marchYear date.year date.month / 400) +
      (yearStart (marchYear date.year date.month % 400).toNat +
        monthStart (marchMonth date.month) + (date.day - 1) : ℕ) - epochDay := rfl
  rw [hunfold, firstDay, daysBefore_eq]
  omega

/-- All months but February have the same length each year. -/
theorem monthStart_succ (year : Int) {month : Nat} (hlow : 1 ≤ month) (hhigh : month ≤ 12)
    (hne : month ≠ 2) :
    monthStart (marchMonth month + 1) = monthStart (marchMonth month) + daysInMonth year month := by
  interval_cases month <;> first | rfl | exact absurd rfl hne

/-- The next month begins when all days of a month are over. -/
theorem firstDay_succ (year : Int) {month : Nat} (hlow : 1 ≤ month) (hhigh : month < 12) :
    firstDay year (month + 1) = firstDay year month + daysInMonth year month := by
  by_cases hmonth : month = 2
  · obtain rfl := hmonth
    -- the year that is counted from March ends here, with its leap day if it has one
    have hfebruary : firstDay year 2 = daysBefore (year - 1) + 337 - epochDay := rfl
    have hmarch : firstDay year 3 = daysBefore year + 0 - epochDay := rfl
    have hlength : daysInMonth year 2 = if isLeap year then 29 else 28 := rfl
    rw [hfebruary, hmarch, hlength, daysBefore_succ]
    split_ifs <;> omega
  · have hyear : marchYear year (month + 1) = marchYear year month := by
      unfold marchYear
      split_ifs <;> omega
    have hstep : marchMonth (month + 1) = marchMonth month + 1 := by
      unfold marchMonth
      split_ifs <;> omega
    rw [firstDay, hyear, hstep, monthStart_succ year hlow hhigh.le hmonth, firstDay]
    omega

theorem firstDay_january (year : Int) :
    firstDay (year + 1) 1 = firstDay year 12 + daysInMonth year 12 := by
  have hyear : marchYear (year + 1) 1 = marchYear year 12 := by simp [marchYear]
  have hlength : monthStart (marchMonth 1) = monthStart (marchMonth 12) + daysInMonth year 12 := rfl
  rw [firstDay, hyear, hlength, firstDay]
  omega

/-! ## The next day -/

/-- The day after a date. -/
def next (date : Date) : Date :=
  if date.day < daysInMonth date.year date.month then { date with day := date.day + 1 }
  else if date.month < 12 then { date with month := date.month + 1, day := 1 }
  else { year := date.year + 1, month := 1, day := 1 }

theorem isValid_next (h : date.isValid = true) : date.next.isValid = true := by
  rw [isValid_iff] at h ⊢
  have hfirst := one_le_daysInMonth
  unfold next
  split_ifs with hday hmonth
  · exact ⟨h.1, Nat.le_add_left 1 _, hday⟩
  · exact ⟨⟨Nat.le_add_left 1 _, hmonth⟩, le_rfl, hfirst _ _⟩
  · exact ⟨⟨le_rfl, Nat.le_add_left 1 11⟩, le_rfl, hfirst _ _⟩

/-- The day after a date has the next number. -/
theorem toDays_next (h : date.isValid = true) : date.next.toDays = date.toDays + 1 := by
  obtain ⟨⟨hlow, hhigh⟩, hday, hlast⟩ := isValid_iff.mp h
  rw [toDays_eq, toDays_eq]
  unfold next
  split_ifs with hinside hmonth
  · show firstDay date.year date.month + (date.day + 1 - 1 : ℕ) = _
    omega
  · have hsucc := firstDay_succ date.year hlow hmonth
    show firstDay date.year (date.month + 1) + (1 - 1 : ℕ) = _
    omega
  · have hsucc := firstDay_january date.year
    have hdecember : date.month = 12 := by omega
    rw [hdecember] at hinside hlast ⊢
    show firstDay (date.year + 1) 1 + (1 - 1 : ℕ) = _
    omega

/-! ## The date of a day -/

/-- The year is found back from a day in it. The last day of a leap year is its 366th. -/
theorem yearOfCycle_yearStart_add {year day : Nat} (hyear : year < 400)
    (hday : day < 365 ∨ day = 365 ∧ year % 4 = 3 ∧ (year % 100 ≠ 99 ∨ year = 399)) :
    yearOfCycle (yearStart year + day) = year := by
  -- only on the last day of the cycle is the correction for 400 years not zero
  by_cases hend : year = 399 ∧ day = 365
  · obtain ⟨rfl, rfl⟩ := hend
    rfl
  obtain ⟨century, leap, rest, hsum, hcentury, hleap, hrest⟩ : ∃ century leap rest,
      year = 100 * century + 4 * leap + rest ∧ century < 4 ∧ leap < 25 ∧ rest < 4 :=
    ⟨year / 100, year % 100 / 4, year % 4, by omega, by omega, by omega, by omega⟩
  have hlast : day < 365 ∨ day = 365 ∧ rest = 3 ∧ leap < 24 := by omega
  have hstart : yearStart year + day =
      36524 * century + (1461 * leap + 365 * rest + day) := by
    unfold yearStart
    omega
  generalize htotal : 36524 * century + (1461 * leap + 365 * rest + day) = total at hstart
  have hcycles : total / 146096 = 0 := by omega
  have hcenturies : total / 36524 = century := by omega
  -- the correction for 4 years comes one too early, but never on the first day of a year
  have hfours : total / 1460 = 25 * century + leap ∨
      total / 1460 = 25 * century + leap + 1 ∧ 0 < day := by omega
  rw [yearOfCycle, hstart, hcenturies, hcycles]
  omega

theorem monthOfYear_monthStart_add {month day : Nat}
    (hday : monthStart month + day < monthStart (month + 1)) :
    monthOfYear (monthStart month + day) = month := by
  unfold monthOfYear monthStart at *
  omega

/-- A day of a month comes before the next month, counted from March. -/
theorem monthStart_add_lt (h : date.isValid = true) :
    monthStart (marchMonth date.month) + (date.day - 1) <
      monthStart (marchMonth date.month + 1) := by
  obtain ⟨⟨hlow, hhigh⟩, hday, hlast⟩ := isValid_iff.mp h
  by_cases hmonth : date.month = 2
  · have hlength : daysInMonth date.year 2 = if isLeap date.year then 29 else 28 := rfl
    rw [hmonth] at hlast ⊢
    show 337 + (date.day - 1) < 367
    split_ifs at hlength <;> omega
  · rw [monthStart_succ date.year hlow hhigh hmonth]
    omega

/-- The 366th day of a year that is counted from March is a leap day. -/
theorem dayOfYear_cases (h : date.isValid = true) :
    let day := monthStart (marchMonth date.month) + (date.day - 1)
    let year := (marchYear date.year date.month % 400).toNat
    day < 365 ∨ day = 365 ∧ year % 4 = 3 ∧ (year % 100 ≠ 99 ∨ year = 399) := by
  obtain ⟨⟨hlow, hhigh⟩, hday, hlast⟩ := isValid_iff.mp h
  intro day year
  by_cases hmonth : date.month = 2
  · have hlength : daysInMonth date.year 2 = if isLeap date.year then 29 else 28 := rfl
    have hdayOfYear : day = 337 + (date.day - 1) := by
      simp only [day, hmonth]
      rfl
    have hyear : year = ((date.year - 1) % 400).toNat := by
      simp only [year, hmonth]
      rfl
    rw [hmonth] at hlast
    split_ifs at hlength with hleap
    · rw [isLeap_iff] at hleap
      omega
    · omega
  · have hbefore := monthStart_add_lt h
    have hlimit : monthStart (marchMonth date.month + 1) ≤ 337 := by
      unfold monthStart marchMonth
      split_ifs <;> omega
    exact .inl (by omega)

/-- A date is found back from its number. -/
theorem ofDays_toDays (h : date.isValid = true) : ofDays date.toDays = date := by
  obtain ⟨⟨hlow, hhigh⟩, hday, hlast⟩ := isValid_iff.mp h
  have hmonth := monthStart_add_lt h
  have hyear := dayOfYear_cases h
  have hdays : date.toDays + epochDay = daysBefore (marchYear date.year date.month) +
      (monthStart (marchMonth date.month) + (date.day - 1) : ℕ) := by
    rw [toDays_eq, firstDay]
    omega
  dsimp only at hyear
  generalize hmarch : marchYear date.year date.month = year at *
  generalize hdayOfYear : monthStart (marchMonth date.month) + (date.day - 1) = day at *
  rw [daysBefore_eq] at hdays
  -- cycle and day in the cycle are quotient and remainder
  have hcycle : yearStart (year % 400).toNat + day < daysPerCycle := by
    unfold yearStart daysPerCycle
    omega
  have hquotient : (date.toDays + epochDay) / daysPerCycle = year / 400 := by
    unfold daysPerCycle at *
    omega
  have hrest : ((date.toDays + epochDay) % daysPerCycle).toNat =
      yearStart (year % 400).toNat + day := by
    unfold daysPerCycle at *
    omega
  have hyearOfCycle := yearOfCycle_yearStart_add (by omega : (year % 400).toNat < 400) hyear
  have hmonthOfYear : monthOfYear day = marchMonth date.month := by
    rw [← hdayOfYear] at hmonth ⊢
    exact monthOfYear_monthStart_add hmonth
  simp only [ofDays, hquotient, hrest, hyearOfCycle, Nat.add_sub_cancel_left, hmonthOfYear]
  -- January and February go back to the year that they were taken from
  unfold marchYear marchMonth at *
  obtain ⟨y, m, d⟩ := date
  dsimp only at *
  split_ifs at * <;> rw [Date.mk.injEq] <;> omega

/-! ## All days -/

/-- So many days after a date. -/
theorem toDays_iterate_next (h : date.isValid = true) (days : Nat) :
    (next^[days] date).isValid = true ∧ (next^[days] date).toDays = date.toDays + days := by
  induction days with
  | zero => exact ⟨h, (add_zero _).symm⟩
  | succ days ih =>
    rw [Function.iterate_succ_apply']
    refine ⟨isValid_next ih.1, ?_⟩
    rw [toDays_next ih.1, ih.2, Nat.cast_succ, add_assoc]

/-- Every day has a date. It comes after the first of January of a year far back. -/
theorem exists_toDays_eq (n : Int) : ∃ date : Date, date.isValid = true ∧ date.toDays = n := by
  have hvalid : isValid ⟨1970 - 400 * n.natAbs, 1, 1⟩ = true := rfl
  have hback : toDays ⟨1970 - 400 * n.natAbs, 1, 1⟩ = -(146097 * n.natAbs) := by
    have hmarch : marchYear (1970 - 400 * n.natAbs) 1 = 1970 - 400 * n.natAbs - 1 := rfl
    have hmonth : monthStart (marchMonth 1) = 306 := rfl
    have hepoch : epochDay = 719468 := rfl
    rw [toDays_eq, firstDay, hmarch, hmonth, hepoch, daysBefore]
    dsimp only
    omega
  obtain ⟨hlater, hdays⟩ := toDays_iterate_next hvalid (n + 146097 * n.natAbs).toNat
  exact ⟨_, hlater, by omega⟩

theorem isValid_ofDays (n : Int) : (ofDays n).isValid = true := by
  obtain ⟨date, hvalid, rfl⟩ := exists_toDays_eq n
  rwa [ofDays_toDays hvalid]

theorem toDays_ofDays (n : Int) : (ofDays n).toDays = n := by
  obtain ⟨date, hvalid, rfl⟩ := exists_toDays_eq n
  rw [ofDays_toDays hvalid]

theorem ofDays_succ (n : Int) : ofDays (n + 1) = (ofDays n).next := by
  have hvalid := isValid_ofDays n
  rw [← ofDays_toDays (isValid_next hvalid), toDays_next hvalid, toDays_ofDays]

/-- Counting days from 1970-01-01, in both directions. -/
inductive IsDay : Int → Date → Prop where
  | epoch : IsDay 0 ⟨1970, 1, 1⟩
  | next {n : Int} {date : Date} (h : IsDay n date) : IsDay (n + 1) date.next
  | previous {n : Int} {date : Date} (hvalid : date.isValid = true)
      (h : IsDay (n + 1) date.next) : IsDay n date

/-- Counting leads to the date of a day, and to no other one. -/
theorem isDay_iff : IsDay n date ↔ date = ofDays n := by
  constructor
  · intro h
    induction h with
    | epoch => rfl
    | next _ ih => rw [ih, ofDays_succ]
    | previous hvalid _ ih =>
      -- no other valid date has the same next day
      have hdays := congrArg toDays ih
      rw [toDays_next hvalid, toDays_ofDays, add_left_inj] at hdays
      rw [← hdays, ofDays_toDays hvalid]
  · rintro rfl
    induction n using Int.induction_on with
    | zero => exact .epoch
    | succ n ih =>
      rw [ofDays_succ]
      exact ih.next
    | pred n ih =>
      refine .previous (isValid_ofDays _) ?_
      rwa [← ofDays_succ, sub_add_cancel]

/-! ## Order -/

/-- Whether a date is written before another one: by the year, then the month, then the day. -/
def Precedes (date date' : Date) : Prop :=
  date.year < date'.year ∨ date.year = date'.year ∧
    (date.month < date'.month ∨ date.month = date'.month ∧ date.day < date'.day)

theorem Precedes.trans {date'' : Date} (h : date.Precedes date') (h' : date'.Precedes date'') :
    date.Precedes date'' := by
  unfold Precedes at *
  omega

theorem precedes_next (date : Date) : date.Precedes date.next := by
  unfold Precedes next
  split_ifs <;> dsimp only <;> omega

/-- Later days have later dates. -/
theorem precedes_ofDays {n' : Int} (h : n < n') : (ofDays n).Precedes (ofDays n') := by
  obtain ⟨more, rfl⟩ := Int.le.dest (Int.add_one_le_of_lt h)
  clear h
  induction more with
  | zero =>
    rw [Nat.cast_zero, add_zero, ofDays_succ]
    exact precedes_next _
  | succ more ih =>
    rw [Nat.cast_succ, ← add_assoc, ofDays_succ]
    exact ih.trans (precedes_next _)

theorem year_ofDays_le {n' : Int} (h : n ≤ n') : (ofDays n).year ≤ (ofDays n').year := by
  rcases Int.lt_or_eq_of_le h with hlt | rfl
  · have hbefore := precedes_ofDays hlt
    unfold Precedes at hbefore
    omega
  · exact le_rfl

end Date
end PrefixMatching
