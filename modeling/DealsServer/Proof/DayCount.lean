import DealsServer.Proof.Dates
import Mathlib.Data.Nat.ModEq

/-!
# Counting days

* `calendarExact`: on all dates of the years 1 to 65535, `days_between_dates` counts the days from one date to the
  other, `rdn` grows by one from each day to the next and never leaves an `int`, codes are ordered as the dates
  are, and `day_of_week` goes on by one from each day to the next.
-/

namespace DealsServer

open Calendar

/-- Year, month and day. -/
def DateParts.triple (d : DateParts) : ℕ × ℕ × ℕ := (d.year.toNat, d.month.toNat, d.day.toNat)

/-- A date of the calendar with its code. -/
structure DateParts.OnCalendar (d : DateParts) : Prop where
  isDate : IsDate d.year.toNat d.month.toNat d.day.toNat
  code_eq : d.code.toNat = 10000 * d.year.toNat + 100 * d.month.toNat + d.day.toNat

/-- `rdn` of a date. -/
def DateParts.rdn (d : DateParts) : ℤ := DealsServer.rdn d.year.toNat d.month.toNat d.day.toNat

/-- `day_of_week` of a date. -/
def DateParts.dayOfWeek (stray : ℤ → UInt8) (d : DateParts) : ℕ :=
  (DealsServer.dayOfWeek stray d.day d.month d.year).toNat

/-- The date is before the other. -/
def DateParts.Before (a b : DateParts) : Prop :=
  Calendar.Before a.year.toNat a.month.toNat a.day.toNat b.year.toNat b.month.toNat b.day.toNat

/-- The values that `rdn` computes on its way, all of them an `int`. -/
def rdnSteps (y m d : ℤ) : List ℤ :=
  let (y, m) := if m < 3 then (y - 1, m + 12) else (y, m)
  let sum1 := 365 * y + y.tdiv 4
  let sum2 := sum1 - y.tdiv 100
  let sum3 := sum2 + y.tdiv 400
  let sum4 := sum3 + (153 * m - 457).tdiv 5
  [y, m, 365 * y, y.tdiv 4, sum1, y.tdiv 100, sum2, y.tdiv 400, sum3, 153 * m, 153 * m - 457,
    (153 * m - 457).tdiv 5, sum4, sum4 + d, sum4 + d - 306]

variable {a b : DateParts}

/-- Two dates with their days counted. -/
structure CountsDays (stray : ℤ → UInt8) (a b : DateParts) : Prop where
  between : nextDay^[(daysBetweenDates a b).toNat] a.triple = b.triple
  weekday : b.dayOfWeek stray ≡ a.dayOfWeek stray + (daysBetweenDates a b).toNat [MOD 7]

theorem dayNumber_lt {y m d : ℕ} (h : IsDate y m d) (hy : y < 2 ^ 16) : dayNumber y m d < 2 ^ 31 := by
  have hwithin := daysBeforeMonth_add_le h
  obtain ⟨k, rfl⟩ := Nat.exists_eq_add_of_le' h.year
  have hyear := daysBeforeYear_eq k
  have hlen : daysInYear (k + 1) ≤ 366 := by
    unfold daysInYear
    split_ifs <;> omega
  unfold dayNumber
  omega

theorem DateParts.OnCalendar.rdn_eq (ha : a.OnCalendar) : a.rdn = a.number := DealsServer.rdn_eq ha.isDate

theorem DateParts.OnCalendar.number_lt (ha : a.OnCalendar) : a.number < 2 ^ 31 :=
  dayNumber_lt ha.isDate a.year.toNat_lt

/-- **The difference of two `rdn`** does not wrap around. -/
theorem daysBetweenDates_eq (ha : a.OnCalendar) (hb : b.OnCalendar) (hle : a.number ≤ b.number) :
    (daysBetweenDates a b).toNat = b.number - a.number := by
  have halt := ha.number_lt
  have hblt := hb.number_lt
  have hrdn (d : DateParts) (hd : d.OnCalendar) :
      UInt32.ofInt (DealsServer.rdn d.year.toNat d.month.toNat d.day.toNat) = UInt32.ofInt d.number := by
    rw [DealsServer.rdn_eq hd.isDate]
    rfl
  unfold daysBetweenDates
  dsimp only
  rw [hrdn a ha, hrdn b hb, UInt32.toNat_sub_of_le]
  · rw [toNat_ofInt (by omega), toNat_ofInt (by omega)]
  · rw [UInt32.le_iff_toNat_le, toNat_ofInt (by omega), toNat_ofInt (by omega)]
    exact hle

theorem number_lt_iff_before (ha : a.OnCalendar) (hb : b.OnCalendar) : a.number < b.number ↔ a.Before b :=
  dayNumber_lt_iff ha.isDate hb.isDate

theorem countsDays (stray : ℤ → UInt8) (ha : a.OnCalendar) (hb : b.OnCalendar) (hle : ¬ b.Before a) :
    CountsDays stray a b := by
  rw [← number_lt_iff_before hb ha, not_lt] at hle
  have hdays := daysBetweenDates_eq ha hb hle
  constructor
  · have hnumber : Calendar.number a.triple + (daysBetweenDates a b).toNat = Calendar.number b.triple := by
      show a.number + _ = b.number
      omega
    exact @iterate_nextDay a.triple b.triple ha.isDate hb.isDate _ hnumber
  · have hday (d : DateParts) (hd : d.OnCalendar) : d.dayOfWeek stray = (d.number + 6) % 7 :=
      @dayOfWeek_calendar stray d hd.isDate
    rw [hday a ha, hday b hb, hdays]
    unfold Nat.ModEq
    omega

/-- Codes are ordered as the dates are. -/
theorem code_lt_iff_before (ha : a.OnCalendar) (hb : b.OnCalendar) : a.code < b.code ↔ a.Before b := by
  rw [UInt32.lt_iff_toNat_lt, ha.code_eq, hb.code_eq]
  have ham := ha.isDate.month.2
  have hbm := hb.isDate.month.2
  have had := ha.isDate.day.2.trans (daysInMonth_le _ _)
  have hbd := hb.isDate.day.2.trans (daysInMonth_le _ _)
  have had1 := ha.isDate.day.1
  have hbd1 := hb.isDate.day.1
  unfold DateParts.Before Calendar.Before
  omega

/-- `rdn` does not overflow. -/
theorem rdnSteps_fit {y m d : ℕ} (h : IsDate y m d) (hy : y < 2 ^ 16) {t : ℤ} (ht : t ∈ rdnSteps y m d) :
    -2 ^ 31 ≤ t ∧ t < 2 ^ 31 := by
  have hyear := h.year
  have hmonth := h.month
  have hday := h.day.2.trans (daysInMonth_le _ _)
  -- the year and the month that the formula is applied to
  obtain ⟨y', m', heq, hy0, hy1, hm0, hm1⟩ : ∃ y' m' : ℤ,
      (if (m : ℤ) < 3 then ((y : ℤ) - 1, (m : ℤ) + 12) else ((y : ℤ), (m : ℤ))) = (y', m') ∧
        0 ≤ y' ∧ y' < 2 ^ 16 ∧ 3 ≤ m' ∧ m' ≤ 14 := by
    split_ifs with hearly
    · exact ⟨_, _, rfl, by omega, by omega, by omega, by omega⟩
    · exact ⟨_, _, rfl, by omega, by omega, by omega, by omega⟩
  unfold rdnSteps at ht
  rw [heq] at ht
  simp only [Int.tdiv_eq_ediv_of_nonneg hy0, Int.tdiv_eq_ediv_of_nonneg (by omega : 0 ≤ 153 * m' - 457), List.mem_cons,
    List.not_mem_nil, or_false] at ht
  omega

theorem rdn_nextDay {y m d y' m' d' : ℕ} (h : IsDate y m d) (hnext : nextDay (y, m, d) = (y', m', d')) :
    rdn y' m' d' = rdn y m d + 1 := by
  have hisDay : IsDay (y, m, d) := h
  have hstep := number_nextDay hisDay
  have hnew := nextDay_isDay hisDay
  rw [hnext] at hstep hnew
  rw [rdn_eq h, rdn_eq (y := y') (m := m') (d := d') hnew]
  unfold Calendar.number at hstep
  dsimp only at hstep
  omega

/-- **The calendar arithmetic is exact.** -/
structure CalendarExact (stray : ℤ → UInt8) : Prop where
  counts : ∀ a b : DateParts, a.OnCalendar → b.OnCalendar → ¬ b.Before a → CountsDays stray a b
  order : ∀ a b : DateParts, a.OnCalendar → b.OnCalendar →
    (a.code < b.code ↔ a.rdn < b.rdn) ∧ (a.code < b.code ↔ a.Before b)
  grows : ∀ y m d y' m' d' : ℕ, IsDate y m d → y ≤ 65535 → nextDay (y, m, d) = (y', m', d') →
    rdn y' m' d' = rdn y m d + 1
  fits : ∀ y m d : ℕ, IsDate y m d → y ≤ 65535 → 0 < rdn y m d ∧ ∀ t ∈ rdnSteps y m d, -2 ^ 31 ≤ t ∧ t < 2 ^ 31
  sunday : dayOfWeek stray 1 3 2015 = 6

theorem calendarExact (stray : ℤ → UInt8) : CalendarExact stray where
  counts _ _ ha hb hle := countsDays stray ha hb hle
  order a b ha hb := by
    rw [ha.rdn_eq, hb.rdn_eq, Int.ofNat_lt, number_lt_iff_before ha hb]
    exact ⟨code_lt_iff_before ha hb, code_lt_iff_before ha hb⟩
  grows _ _ _ _ _ _ h _ hnext := rdn_nextDay h hnext
  fits y m d h hy := by
    refine ⟨?_, fun t ht => rdnSteps_fit h (by omega) ht⟩
    rw [rdn_eq h]
    have := h.day.1
    unfold dayNumber
    omega
  sunday := rfl

end DealsServer
