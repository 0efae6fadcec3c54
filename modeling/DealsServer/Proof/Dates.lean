import DealsServer.Lib.Calendar
import DealsServer.Spec.AddDeal

/-!
# Dates of the calendar

On a date that exists, the integer formulas of `utils.cpp` compute what the calendar says: `rdn` is the
number of the day (`rdn_eq`), `day_of_week` its weekday (`dayOfWeek_eq`), and the codes of two dates are
ordered as their days are (`code_lt_iff`, `code_inj`).
-/

namespace DealsServer

/-- A date of the calendar, in four digits of the year. -/
structure DateParts.Valid (d : DateParts) : Prop where
  isDate : Calendar.IsDate d.year.toNat d.month.toNat d.day.toNat
  year_le : d.year.toNat ≤ 9999
  code_eq : d.code.toNat = 10000 * d.year.toNat + 100 * d.month.toNat + d.day.toNat

/-- The number of the day. -/
def DateParts.number (d : DateParts) : ℕ := Calendar.dayNumber d.year.toNat d.month.toNat d.day.toNat

/-- The true weekday, from 0 on Monday. -/
def DateParts.weekday (d : DateParts) : ℕ := Calendar.weekday d.year.toNat d.month.toNat d.day.toNat

/-- The days before a month in the count of `rdn`, which begins the year with March. -/
theorem rdn_month {y m : ℕ} (h1 : 3 ≤ m) (h2 : m ≤ 12) :
    (153 * (m : ℤ) - 457).tdiv 5 - 306 + 365 + (if Calendar.leap y then 1 else 0) =
      Calendar.daysBeforeMonth y m := by
  rw [Calendar.daysBeforeMonth_eq y (by omega) h2]
  by_cases h : Calendar.leap y <;> interval_cases m <;> simp [h]

/-- `Calendar.leapDays_succ` on the integers of the formulas. -/
theorem leapDays_succ_int (k : ℕ) :
    ((k : ℤ) + 1) / 4 + ((k : ℤ) + 1) / 400 + (k : ℤ) / 100 =
      (k : ℤ) / 4 + (k : ℤ) / 400 + ((k : ℤ) + 1) / 100 + if Calendar.leap (k + 1) then 1 else 0 := by
  exact_mod_cast Calendar.leapDays_succ k

/-- **`rdn` numbers the days of the calendar.** -/
theorem rdn_eq {y m d : ℕ} (h : Calendar.IsDate y m d) : rdn y m d = Calendar.dayNumber y m d := by
  obtain ⟨k, rfl⟩ := Nat.exists_eq_add_of_le' h.year
  have hyear := Calendar.daysBeforeYear_eq k
  have hm := h.month
  unfold Calendar.dayNumber rdn
  -- January and February count as months of the year before
  by_cases hearly : m < 3
  · have htable := Calendar.daysBeforeMonth_eq (k + 1) hm.1 hm.2
    have hdays : Calendar.daysBeforeMonth (k + 1) m = if m = 2 then 31 else 0 := by
      rw [htable]
      rcases (by omega : m = 1 ∨ m = 2) with rfl | rfl <;> simp
    have hpre : (153 * ((m : ℤ) + 12) - 457).tdiv 5 - 306 = if m = 2 then 31 else 0 := by
      rcases (by omega : m = 1 ∨ m = 2) with rfl | rfl <;> rfl
    simp only [Nat.cast_lt_ofNat, hearly, if_true, Nat.cast_add, Nat.cast_one, add_sub_cancel_right]
    have hk : (0 : ℤ) ≤ k := Int.natCast_nonneg k
    simp only [Int.tdiv_eq_ediv_of_nonneg hk]
    rw [hdays]
    by_cases h2 : m = 2
    · simp only [h2, if_true] at hpre ⊢
      omega
    · simp only [h2, if_false] at hpre ⊢
      omega
  · have hmonth := rdn_month (y := k + 1) (by omega : 3 ≤ m) hm.2
    simp only [Nat.cast_lt_ofNat, hearly, if_false, Nat.cast_add, Nat.cast_one]
    have hk : (0 : ℤ) ≤ k + 1 := by omega
    simp only [Int.tdiv_eq_ediv_of_nonneg hk]
    have hleap := leapDays_succ_int k
    split_ifs at hmonth hleap <;> linarith

/-- A day number fits in a word. -/
theorem dayNumber_le {y m d : ℕ} (h : Calendar.IsDate y m d) (hy : y ≤ 9999) :
    Calendar.dayNumber y m d ≤ 3660000 := by
  have hwithin := Calendar.daysBeforeMonth_add_le h
  obtain ⟨k, rfl⟩ := Nat.exists_eq_add_of_le' h.year
  have hyear := Calendar.daysBeforeYear_eq k
  have hlen : Calendar.daysInYear (k + 1) ≤ 366 := by
    unfold Calendar.daysInYear
    split_ifs <;> omega
  unfold Calendar.dayNumber
  omega

theorem toNat_ofInt {n : ℕ} (h : n < 2 ^ 32) : (UInt32.ofInt (n : ℤ)).toNat = n := by
  have hmod : ((n : ℤ) % 2 ^ 32).toNat = n := by omega
  rw [UInt32.ofInt, hmod]
  exact UInt32.toNat_ofNat_of_lt' h

/-- **The days between two dates**, the later one first. -/
theorem daysAfter_eq {d e : DateParts} (hd : d.Valid) (he : e.Valid) (hle : e.number ≤ d.number) :
    (Date.daysAfter (some d) (some e)).toNat = d.number - e.number := by
  have hdn := dayNumber_le hd.isDate hd.year_le
  have hen := dayNumber_le he.isDate he.year_le
  unfold DateParts.number at hle ⊢
  simp only [Date.daysAfter, daysBetweenDates, Option.getD_some, rdn_eq hd.isDate, rdn_eq he.isDate]
  rw [UInt32.toNat_sub_of_le]
  · rw [toNat_ofInt (by omega), toNat_ofInt (by omega)]
  · rw [UInt32.le_iff_toNat_le, toNat_ofInt (by omega), toNat_ofInt (by omega)]
    exact hle

/-- The table of `day_of_week` counts the days before a month modulo 7. -/
theorem dayTable_mod {y m : ℕ} (h1 : 1 ≤ m) (h2 : m ≤ 12) :
    (Calendar.daysBeforeMonth y m : ℤ) % 7 =
      (dayTable.getD (m - 1) 0 + (if m < 3 then 0 else 1 + if Calendar.leap y then 1 else 0)) % 7 := by
  rw [Calendar.daysBeforeMonth_eq y h1 h2]
  by_cases h : Calendar.leap y <;> interval_cases m <;> simp [h, dayTable]

/-- The sum of `day_of_week`, which counts from Sunday, is the day number modulo 7. -/
theorem dayOfWeek_sum {y m d : ℕ} (h : Calendar.IsDate y m d) :
    let y' : ℤ := if m < 3 then y - 1 else y
    (y' + y'.tdiv 4 - y'.tdiv 100 + y'.tdiv 400 + dayTable.getD (m - 1) 0 + d).tmod 7 =
      Calendar.dayNumber y m d % 7 := by
  intro y'
  have hm := h.month
  have htable := dayTable_mod (y := y) hm.1 hm.2
  have hnonneg : 0 ≤ dayTable.getD (m - 1) 0 := by
    have hm1 := hm.1
    have hm2 := hm.2
    interval_cases m <;> decide
  obtain ⟨k, rfl⟩ := Nat.exists_eq_add_of_le' h.year
  have hyear := Calendar.daysBeforeYear_eq k
  have hy' : 0 ≤ y' := by
    simp only [y']
    split_ifs <;> omega
  -- the leap days up to the date, counted as `dayNumber` does
  have hcount : y' + y' / 4 - y' / 100 + y' / 400 =
      k + k / 4 - k / 100 + k / 400 + (if m < 3 then 0 else 1 + if Calendar.leap (k + 1) then 1 else 0) := by
    by_cases hearly : m < 3
    · simp only [y', hearly, if_true]
      omega
    · simp only [y', hearly, if_false, Nat.cast_add, Nat.cast_one]
      have hleap := leapDays_succ_int k
      split_ifs at hleap ⊢ <;> linarith
  simp only [Int.tdiv_eq_ediv_of_nonneg hy']
  rw [Int.tmod_eq_emod_of_nonneg (by omega), hcount]
  unfold Calendar.dayNumber
  generalize (if m < 3 then (0 : ℤ) else 1 + if Calendar.leap (k + 1) then 1 else 0) = c at htable ⊢
  omega

/-- **`day_of_week` is the weekday of the calendar**, in every year of the type. -/
theorem dayOfWeek_calendar {stray : ℤ → UInt8} {d : DateParts}
    (hd : Calendar.IsDate d.year.toNat d.month.toNat d.day.toNat) :
    (Date.dayOfWeek stray (some d)).toNat = d.weekday := by
  have hm := hd.month
  have hy := hd.year
  have hsum := dayOfWeek_sum hd
  have hmonth : 1 ≤ d.month ∧ d.month ≤ 12 := by
    rw [UInt8.le_iff_toNat_le, UInt8.le_iff_toNat_le]
    exact hm
  have hyear : ((d.year - if d.month < 3 then 1 else 0).toNat : ℤ) =
      if d.month.toNat < 3 then (d.year.toNat : ℤ) - 1 else d.year.toNat := by
    by_cases hearly : d.month < 3
    · have hearly' : d.month.toNat < 3 := UInt8.lt_iff_toNat_lt.1 hearly
      have hone : (1 : UInt16) ≤ d.year := UInt16.le_iff_toNat_le.2 hy
      rw [if_pos hearly, if_pos hearly', UInt16.toNat_sub_of_le _ _ hone]
      exact Int.ofNat_sub hy
    · have hearly' : ¬ d.month.toNat < 3 := fun hlt => hearly (UInt8.lt_iff_toNat_lt.2 hlt)
      rw [if_neg hearly, if_neg hearly', UInt16.sub_zero]
  simp only [Date.dayOfWeek, DealsServer.dayOfWeek, Option.getD_some, if_pos hmonth, hyear]
  rw [hsum]
  unfold DateParts.weekday Calendar.weekday
  set n := Calendar.dayNumber d.year.toNat d.month.toNat d.day.toNat with hn
  -- the sum counts from Sunday, the weekday from Monday
  by_cases hsunday : (n : ℤ) % 7 = 0
  · rw [if_pos hsunday]
    show 6 = _
    omega
  · rw [if_neg hsunday]
    have hcast : ((n : ℤ) % 7 - 1) = ((n % 7 - 1 : ℕ) : ℤ) := by omega
    rw [hcast, UInt8.ofInt]
    have hmod : (((n % 7 - 1 : ℕ) : ℤ) % 2 ^ 8).toNat = n % 7 - 1 := by omega
    rw [hmod, UInt8.toNat_ofNat_of_lt' (by show _ < 256; omega)]
    omega

/-- The weekday of a date in four digits of the year. -/
theorem dayOfWeek_eq {stray : ℤ → UInt8} {d : DateParts} (hd : d.Valid) :
    (Date.dayOfWeek stray (some d)).toNat = d.weekday := dayOfWeek_calendar hd.isDate

/-- **Codes are ordered as the days are.** -/
theorem code_lt_iff {d e : DateParts} (hd : d.Valid) (he : e.Valid) : d.code < e.code ↔ d.number < e.number := by
  rw [UInt32.lt_iff_toNat_lt, hd.code_eq, he.code_eq, DateParts.number, DateParts.number,
    Calendar.dayNumber_lt_iff hd.isDate he.isDate]
  have hdm := hd.isDate.month.2
  have hem := he.isDate.month.2
  have hdd := hd.isDate.day.2.trans (Calendar.daysInMonth_le _ _)
  have hed := he.isDate.day.2.trans (Calendar.daysInMonth_le _ _)
  have hdd1 := hd.isDate.day.1
  have hed1 := he.isDate.day.1
  unfold Calendar.Before
  omega

theorem code_le_iff {d e : DateParts} (hd : d.Valid) (he : e.Valid) : d.code ≤ e.code ↔ d.number ≤ e.number := by
  rw [← UInt32.not_lt, code_lt_iff he hd, not_lt]

/-- **Dates with one code are one day.** -/
theorem code_inj {d e : DateParts} (hd : d.Valid) (he : e.Valid) : d.code = e.code ↔ d.number = e.number := by
  have hlt := code_lt_iff hd he
  have hgt := code_lt_iff he hd
  rw [UInt32.lt_iff_toNat_lt] at hlt hgt
  rw [← UInt32.toNat_inj]
  omega

/-- A date of the calendar has a code other than the 0 of an absent date. -/
theorem DateParts.Valid.code_pos {d : DateParts} (hd : d.Valid) : 0 < d.code.toNat := by
  have := hd.isDate.day.1
  have := hd.code_eq
  omega

end DealsServer
