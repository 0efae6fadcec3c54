import Mathlib.Tactic.IntervalCases
import Mathlib.Tactic.Linarith

/-!
# The Gregorian calendar

`dayNumber y m d` counts the days from 0001-01-01, which is day 1 and a Monday, by adding up the lengths
of the years and of the months before.

* `daysBeforeYear_eq`: the closed form of the days before a year.
* `dayNumber_lt_iff`: the day number grows as the date does, year first, then month, then day.
* `iterate_nextDay`: as many steps from one day to the next lead from a date to another as their numbers differ.
-/

namespace Calendar

/-- Leap years. -/
def leap (y : ℕ) : Prop := y % 4 = 0 ∧ (y % 100 ≠ 0 ∨ y % 400 = 0)

instance : DecidablePred leap := fun _ => inferInstanceAs (Decidable (_ ∧ _))

/-- The days of a month, counted from 1. -/
def daysInMonth (y m : ℕ) : ℕ :=
  if m = 2 then if leap y then 29 else 28
  else if m = 4 ∨ m = 6 ∨ m = 9 ∨ m = 11 then 30
  else 31

/-- The days of a year. -/
def daysInYear (y : ℕ) : ℕ := if leap y then 366 else 365

/-- The days of the years `1, …, y - 1`. -/
def daysBeforeYear : ℕ → ℕ
  | 0 => 0
  | 1 => 0
  | y + 2 => daysBeforeYear (y + 1) + daysInYear (y + 1)

/-- The days of the months `1, …, m - 1` of year `y`. -/
def daysBeforeMonth (y : ℕ) : ℕ → ℕ
  | 0 => 0
  | 1 => 0
  | m + 2 => daysBeforeMonth y (m + 1) + daysInMonth y (m + 1)

/-- The number of a day, from 1 on 0001-01-01. -/
def dayNumber (y m d : ℕ) : ℕ := daysBeforeYear y + daysBeforeMonth y m + d

/-- The day of the week, from 0 on Monday. -/
def weekday (y m d : ℕ) : ℕ := (dayNumber y m d + 6) % 7

/-- A date that exists. -/
structure IsDate (y m d : ℕ) : Prop where
  year : 1 ≤ y
  month : 1 ≤ m ∧ m ≤ 12
  day : 1 ≤ d ∧ d ≤ daysInMonth y m

/-- 2015-03-01 was a Sunday. -/
example : weekday 2015 3 1 = 6 := by decide +kernel

theorem daysBeforeYear_succ {y : ℕ} (hy : 1 ≤ y) :
    daysBeforeYear (y + 1) = daysBeforeYear y + daysInYear y := by
  obtain ⟨k, rfl⟩ := Nat.exists_eq_add_of_le' hy
  rfl

theorem daysBeforeMonth_succ (y : ℕ) {m : ℕ} (hm : 1 ≤ m) :
    daysBeforeMonth y (m + 1) = daysBeforeMonth y m + daysInMonth y m := by
  obtain ⟨k, rfl⟩ := Nat.exists_eq_add_of_le' hm
  rfl

/-- The count of leap days grows by one in a leap year. -/
theorem leapDays_succ (y : ℕ) :
    (y + 1) / 4 + (y + 1) / 400 + y / 100 =
      y / 4 + y / 400 + (y + 1) / 100 + if leap (y + 1) then 1 else 0 := by
  have h100 : 400 ∣ y + 1 → 100 ∣ y + 1 := (by decide : 100 ∣ 400).trans
  have h4 : 100 ∣ y + 1 → 4 ∣ y + 1 := (by decide : 4 ∣ 100).trans
  have hleap : leap (y + 1) ↔ 4 ∣ y + 1 ∧ (¬ 100 ∣ y + 1 ∨ 400 ∣ y + 1) := by
    simp only [leap, Nat.dvd_iff_mod_eq_zero, ne_eq]
  simp only [Nat.succ_div, hleap]
  split_ifs <;> grind

/-- **The days before a year**, one leap day for each leap year passed. -/
theorem daysBeforeYear_eq (y : ℕ) : daysBeforeYear (y + 1) + y / 100 = 365 * y + y / 4 + y / 400 := by
  induction y with
  | zero => rfl
  | succ y ih =>
    have hleap := leapDays_succ y
    rw [daysBeforeYear_succ (by omega), daysInYear]
    split_ifs at hleap ⊢ <;> linarith

/-- The days before a month, for each month. -/
theorem daysBeforeMonth_eq (y : ℕ) {m : ℕ} (h1 : 1 ≤ m) (h2 : m ≤ 12) :
    daysBeforeMonth y m = [0, 31, 59, 90, 120, 151, 181, 212, 243, 273, 304, 334].getD (m - 1) 0 +
      if leap y ∧ 2 < m then 1 else 0 := by
  by_cases h : leap y <;> interval_cases m <;> simp [daysBeforeMonth, daysInMonth, h]

theorem daysInMonth_le (y m : ℕ) : daysInMonth y m ≤ 31 := by
  unfold daysInMonth
  split_ifs <;> omega

theorem daysBeforeYear_mono {y y' : ℕ} (hy : 1 ≤ y) (h : y ≤ y') : daysBeforeYear y ≤ daysBeforeYear y' := by
  induction y', h using Nat.le_induction with
  | base => exact le_rfl
  | succ n hn ih =>
    rw [daysBeforeYear_succ (by omega)]
    omega

theorem daysBeforeMonth_mono (y : ℕ) {m m' : ℕ} (hm : 1 ≤ m) (h : m ≤ m') :
    daysBeforeMonth y m ≤ daysBeforeMonth y m' := by
  induction m', h using Nat.le_induction with
  | base => exact le_rfl
  | succ n hn ih =>
    rw [daysBeforeMonth_succ y (by omega)]
    omega

/-- A date lies within its year. -/
theorem daysBeforeMonth_add_le {y m d : ℕ} (h : IsDate y m d) : daysBeforeMonth y m + d ≤ daysInYear y := by
  have hstep := daysBeforeMonth_succ y h.month.1
  have hday := h.day.2
  have hmono := daysBeforeMonth_mono y (by omega : 1 ≤ m + 1) (by have := h.month.2; omega : m + 1 ≤ 13)
  have hyear : daysBeforeMonth y 13 = daysInYear y := by
    by_cases hl : leap y <;> simp [daysBeforeMonth, daysInMonth, daysInYear, hl]
  omega

/-- The order of dates: year, then month, then day. -/
def Before (y m d y' m' d' : ℕ) : Prop := y < y' ∨ y = y' ∧ (m < m' ∨ m = m' ∧ d < d')

theorem dayNumber_lt_of_before {y m d y' m' d' : ℕ} (h : IsDate y m d) (h' : IsDate y' m' d')
    (hlt : Before y m d y' m' d') : dayNumber y m d < dayNumber y' m' d' := by
  have hpos := h'.day.1
  unfold dayNumber
  rcases hlt with hyear | ⟨rfl, hmonth | ⟨rfl, hday⟩⟩
  · have hwithin := daysBeforeMonth_add_le h
    have hsucc := daysBeforeYear_succ h.year
    have hmono := daysBeforeYear_mono (by omega : 1 ≤ y + 1) (by omega : y + 1 ≤ y')
    omega
  · have hstep := daysBeforeMonth_succ y h.month.1
    have hday := h.day.2
    have hmono := daysBeforeMonth_mono y (by omega : 1 ≤ m + 1) (by omega : m + 1 ≤ m')
    omega
  · omega

/-- **The day number grows with the date.** -/
theorem dayNumber_lt_iff {y m d y' m' d' : ℕ} (h : IsDate y m d) (h' : IsDate y' m' d') :
    dayNumber y m d < dayNumber y' m' d' ↔ Before y m d y' m' d' := by
  refine ⟨fun hlt => ?_, dayNumber_lt_of_before h h'⟩
  by_contra hnot
  have hback : Before y' m' d' y m d ∨ (y = y' ∧ m = m' ∧ d = d') := by
    unfold Before at hnot ⊢
    omega
  rcases hback with hback | ⟨rfl, rfl, rfl⟩
  · have := dayNumber_lt_of_before h' h hback
    omega
  · exact lt_irrefl _ hlt

theorem dayNumber_injective {y m d y' m' d' : ℕ} (h : IsDate y m d) (h' : IsDate y' m' d')
    (heq : dayNumber y m d = dayNumber y' m' d') : y = y' ∧ m = m' ∧ d = d' := by
  have hlt := dayNumber_lt_iff h h'
  have hgt := dayNumber_lt_iff h' h
  unfold Before at hlt hgt
  omega

/-! ## From one day to the next -/

/-- The day after a date. -/
def nextDay (date : ℕ × ℕ × ℕ) : ℕ × ℕ × ℕ :=
  let (y, m, d) := date
  if d < daysInMonth y m then (y, m, d + 1)
  else if m < 12 then (y, m + 1, 1)
  else (y + 1, 1, 1)

/-- A date that exists, as a triple. -/
def IsDay (date : ℕ × ℕ × ℕ) : Prop := IsDate date.1 date.2.1 date.2.2

/-- The number of a day, of a triple. -/
def number (date : ℕ × ℕ × ℕ) : ℕ := dayNumber date.1 date.2.1 date.2.2

theorem daysInMonth_pos (y m : ℕ) : 1 ≤ daysInMonth y m := by
  unfold daysInMonth
  split_ifs <;> omega

theorem nextDay_isDay {date : ℕ × ℕ × ℕ} (h : IsDay date) : IsDay (nextDay date) := by
  obtain ⟨y, m, d⟩ := date
  have hyear := h.year
  have hmonth := h.month
  have hday := h.day
  dsimp only at hyear hmonth hday
  unfold nextDay
  dsimp only
  split_ifs with hlast hdecember
  · show IsDate y m (d + 1)
    exact ⟨hyear, hmonth, by omega, hlast⟩
  · show IsDate y (m + 1) 1
    exact ⟨hyear, ⟨by omega, by omega⟩, le_rfl, daysInMonth_pos _ _⟩
  · show IsDate (y + 1) 1 1
    exact ⟨by omega, ⟨le_rfl, by omega⟩, le_rfl, daysInMonth_pos _ _⟩

/-- **The next day has the next number.** -/
theorem number_nextDay {date : ℕ × ℕ × ℕ} (h : IsDay date) : number (nextDay date) = number date + 1 := by
  obtain ⟨y, m, d⟩ := date
  have hyear := h.year
  have hmonth := h.month
  have hday := h.day
  dsimp only at hyear hmonth hday
  unfold nextDay number
  dsimp only
  split_ifs with hlast hdecember
  · unfold dayNumber
    dsimp only
    omega
  · -- the last day of a month
    have hstep := daysBeforeMonth_succ y hmonth.1
    unfold dayNumber
    dsimp only
    omega
  · -- the last day of a year
    have hdec : m = 12 := by omega
    subst hdec
    have hstep := daysBeforeYear_succ hyear
    have hwhole : daysBeforeMonth y 12 + daysInMonth y 12 = daysInYear y := by
      by_cases hl : leap y <;> simp [daysBeforeMonth, daysInMonth, daysInYear, hl]
    have hjan : daysBeforeMonth (y + 1) 1 = 0 := rfl
    unfold dayNumber
    dsimp only
    omega

theorem iterate_isDay {date : ℕ × ℕ × ℕ} (h : IsDay date) (n : ℕ) :
    IsDay (nextDay^[n] date) ∧ number (nextDay^[n] date) = number date + n := by
  induction n with
  | zero => exact ⟨h, rfl⟩
  | succ n ih =>
    rw [Function.iterate_succ_apply', number_nextDay ih.1, ih.2]
    exact ⟨nextDay_isDay ih.1, rfl⟩

/-- **The days from one date to another** are the steps that lead there. -/
theorem iterate_nextDay {date date' : ℕ × ℕ × ℕ} (h : IsDay date) (h' : IsDay date') {n : ℕ}
    (hn : number date + n = number date') : nextDay^[n] date = date' := by
  obtain ⟨hisDay, hnumber⟩ := iterate_isDay h n
  obtain ⟨hy, hm, hd⟩ := dayNumber_injective hisDay h' (hnumber.trans hn)
  exact Prod.ext hy (Prod.ext hm hd)

end Calendar
