import DealsServer.Proof.BuildQuery
import DealsServer.Proof.Dates
import DealsServer.Proof.Splitting

/-!
# Filters and posted deals

`Plain`, `ReturnSide` and `Timely` say when a deal as posted satisfies the constraints of a request. The
filter compares the stored record instead, in which a missing return date is a return date 0, a stay of
255 days and the weekday of an undefined date, and in which a stay is cut at 255 days.

* `filter_agrees_iff`: the filter passes a record exactly when the posted deal satisfies the request,
  unless the request takes a sentinel for a value (`Sentinel`) or its time limit lies before the epoch of
  the clock (`TimeWraps`).
-/

namespace DealsServer

/-! ## What the constraints say -/

/-- The constraints that do not ask for a return date. -/
structure Plain (p : TopParams) (a : AddParams) : Prop where
  origin : p.origin = a.origin
  destinations : ∀ codes ∈ p.destinations, some a.destination ∈ codes
  countries : ∀ codes ∈ p.destinationCountries, some a.destinationCountry ∈ codes
  departureFrom : ∀ d ∈ p.departureDateFrom, d.number ≤ a.departureDate.number
  departureTo : ∀ d ∈ p.departureDateTo, a.departureDate.number ≤ d.number
  departureWeekday : ∀ mask ∈ p.dweekdays, mask.toNat.testBit a.departureDate.weekday = true
  exact : ∀ e ∈ p.departureOrReturnDate,
    (∃ r ∈ a.returnDate, r.number = e.number) ∨ a.departureDate.number = e.number
  direct : ∀ b ∈ p.directFlights, b = a.directFlight
  roundtrip : ∀ b ∈ p.roundtripFlights, b = a.returnDate.isSome

/-- The constraints on the return date and the stay, which a deal without a return date does not satisfy. -/
structure ReturnSide (p : TopParams) (a : AddParams) : Prop where
  returnFrom : ∀ d ∈ p.returnDateFrom, ∃ r ∈ a.returnDate, d.number ≤ r.number
  returnTo : ∀ d ∈ p.returnDateTo, ∃ r ∈ a.returnDate, r.number ≤ d.number
  stayFrom : ∀ v ∈ p.stayFrom, ∃ r ∈ a.returnDate, v.toNat ≤ r.number - a.departureDate.number
  stayTo : ∀ v ∈ p.stayTo, ∃ r ∈ a.returnDate, r.number - a.departureDate.number ≤ v.toNat
  returnWeekday : ∀ mask ∈ p.rweekdays, ∃ r ∈ a.returnDate, mask.toNat.testBit r.weekday = true

/-- The record is not older than the time limit, at the clock of the request. -/
def Timely (clock timestamp : UInt32) (p : TopParams) : Prop :=
  ∀ v ∈ p.timelimit, clock.toNat ≤ timestamp.toNat + v.toNat

/-! ## Where the encoding shows -/

/-- The weekday in the record of a deal without a return date. -/
def strayDay (stray : ℤ → UInt8) : UInt8 := Date.dayOfWeek stray none

/-- The request constrains the return side. -/
def TopParams.asksReturn (p : TopParams) : Bool := p.returnGiven || p.stayGiven || p.rweekdays.isSome

/-- The sentinels of the stored record lie within the constraints: those of a one-way deal, or the stay of
255 days of a longer one. -/
def Sentinel (stray : ℤ → UInt8) (p : TopParams) (a : AddParams) : Prop :=
  match a.returnDate with
  | none => p.asksReturn = true ∧ p.returnDateFrom = none ∧ (∀ v ∈ p.stayTo, v = 255) ∧
      ∀ mask ∈ p.rweekdays, mask.toNat.testBit (strayDay stray).toNat = true
  | some r => p.stayTo = some 255 ∧ 255 < r.number - a.departureDate.number ∧
      (∀ d ∈ p.returnDateFrom, d.number ≤ r.number) ∧ (∀ d ∈ p.returnDateTo, r.number ≤ d.number) ∧
      ∀ mask ∈ p.rweekdays, mask.toNat.testBit r.weekday = true

/-- The time limit is longer than the clock is old, and the subtraction wraps around. -/
def TimeWraps (clock timestamp : UInt32) (p : TopParams) : Prop :=
  ∃ v ∈ p.timelimit, clock < v ∧ timestamp < clock - v

/-! ## The record against the constraints -/

theorem between_dates (f t : Date) (x : UInt32) :
    ((f.isSome || t.isSome) = true →
      (SearchQuery.dateInterval f t).dateFrom ≤ x ∧ x ≤ (SearchQuery.dateInterval f t).dateTo) ↔
      (∀ d ∈ f, d.code ≤ x) ∧ ∀ d ∈ t, x ≤ d.code := by
  have hlow : (0 : UInt32) ≤ x := UInt32.le_iff_toNat_le.2 (Nat.zero_le _)
  have hhigh : x ≤ 2 ^ 32 - 1 := by
    have := x.toNat_lt
    rw [UInt32.le_iff_toNat_le]
    show x.toNat ≤ 4294967295
    omega
  rcases f with _ | f <;> rcases t with _ | t <;> simp [SearchQuery.dateInterval, hlow]
  · intro _
    exact hhigh

theorem between_stays (f t : Number) (x : UInt8) :
    ((f.isSome || t.isSome) = true →
      (stayInterval f t).stayFrom ≤ x ∧ x ≤ (stayInterval f t).stayTo) ↔
      (∀ v ∈ f, v.toUInt8 ≤ x) ∧ ∀ v ∈ t, x ≤ v.toUInt8 := by
  have hlow : (0 : UInt8) ≤ x := UInt8.le_iff_toNat_le.2 (Nat.zero_le _)
  have hhigh : x ≤ (255 : UInt32).toUInt8 := by
    have := x.toNat_lt
    rw [UInt8.le_iff_toNat_le]
    show x.toNat ≤ 255
    omega
  rcases f with _ | f <;> rcases t with _ | t <;> simp [stayInterval, hlow]
  · intro _
    exact hhigh

theorem two_pow_and_eq_zero (i n : ℕ) : 2 ^ i &&& n = 0 ↔ n.testBit i = false := by
  constructor
  · intro h
    have hbit := congrArg (Nat.testBit · i) h
    simpa [Nat.testBit_and, Nat.testBit_two_pow_self] using hbit
  · intro h
    apply Nat.eq_of_testBit_eq
    intro j
    rw [Nat.testBit_and, Nat.testBit_two_pow, Nat.zero_testBit]
    by_cases hj : i = j
    · rw [← hj, h, Bool.and_false]
    · simp [hj]

/-- The bit of a weekday in a mask. -/
theorem bit_and_ne_zero {w mask : UInt8} (hw : w.toNat < 8) :
    (1 <<< w) &&& mask ≠ 0 ↔ mask.toNat.testBit w.toNat = true := by
  have hpow : (2 : ℕ) ^ w.toNat < 2 ^ 8 := Nat.pow_lt_pow_right (by omega) hw
  have hbit : (1 <<< w : UInt8).toNat = 2 ^ w.toNat := by
    rw [UInt8.toNat_shiftLeft, Nat.mod_eq_of_lt hw, UInt8.toNat_one, Nat.shiftLeft_eq, one_mul,
      Nat.mod_eq_of_lt hpow]
  rw [ne_eq, ← UInt8.toNat_inj, UInt8.toNat_and, hbit, UInt8.toNat_zero, two_pow_and_eq_zero,
    Bool.not_eq_false]

/-- The weekday of any date, an undefined one too, is one of seven. -/
theorem dayOfWeek_lt (stray : ℤ → UInt8) (d : Date) : (d.dayOfWeek stray).toNat < 7 := by
  simp only [Date.dayOfWeek, dayOfWeek]
  set parts := d.getD .zero
  set y : ℤ := ((parts.year - if parts.month < 3 then 1 else 0).toNat : ℤ) with hy
  set t : ℤ := if 1 ≤ parts.month ∧ parts.month ≤ 12 then dayTable.getD (parts.month.toNat - 1) 0
    else (stray (parts.month.toNat - 1)).toNat with ht
  have hy0 : 0 ≤ y := Int.natCast_nonneg _
  -- the table has twelve months; a month outside them reads a stray byte
  have ht0 : 0 ≤ t := by
    rw [ht]
    split_ifs with hm
    · have h1 := UInt8.le_iff_toNat_le.1 hm.1
      have h2 := UInt8.le_iff_toNat_le.1 hm.2
      have hrange : parts.month.toNat - 1 < 12 := by
        have : parts.month.toNat ≤ 12 := h2
        omega
      generalize parts.month.toNat - 1 = i at hrange
      interval_cases i <;> decide
    · exact Int.natCast_nonneg _
  simp only [Int.tdiv_eq_ediv_of_nonneg hy0]
  rw [Int.tmod_eq_emod_of_nonneg (by omega)]
  generalize y + y / 4 - y / 100 + y / 400 + t + (parts.day.toNat : ℤ) = n
  -- Sunday comes out as 0 and is moved behind Saturday
  by_cases h0 : n % 7 = 0
  · rw [if_pos h0]
    decide
  · rw [if_neg h0, UInt8.ofInt]
    have hlt : ((n % 7 - 1) % 2 ^ 8).toNat < 6 := by omega
    rw [UInt8.toNat_ofNat_of_lt' (by show _ < 256; omega)]
    omega

/-- The constraints on the return side, as the filter reads them off the record. -/
structure StoredReturn (stray : ℤ → UInt8) (p : TopParams) (d : DealInfo) : Prop where
  returns : (∀ e ∈ p.returnDateFrom, e.code ≤ d.returnDate) ∧ ∀ e ∈ p.returnDateTo, d.returnDate ≤ e.code
  stay : (∀ v ∈ p.stayFrom, v.toUInt8 ≤ d.stayDays) ∧ ∀ v ∈ p.stayTo, d.stayDays ≤ v.toUInt8
  weekday : ∀ mask ∈ p.rweekdays, d.returnDayOfWeek &&& mask ≠ 0

/-- The dates of a request are dates of the calendar. -/
structure TopParams.ValidDates (p : TopParams) : Prop where
  departureFrom : ∀ d ∈ p.departureDateFrom, d.Valid
  departureTo : ∀ d ∈ p.departureDateTo, d.Valid
  returnFrom : ∀ d ∈ p.returnDateFrom, d.Valid
  returnTo : ∀ d ∈ p.returnDateTo, d.Valid
  exact : ∀ d ∈ p.departureOrReturnDate, d.Valid

/-- A deal that `addDeal` accepts, with dates of the calendar. -/
structure AddParams.ValidDates (a : AddParams) : Prop where
  departure : a.departureDate.Valid
  returns : ∀ r ∈ a.returnDate, r.Valid
  ordered : ∀ r ∈ a.returnDate, a.departureDate.number ≤ r.number

variable {stray : ℤ → UInt8} {p : TopParams} {a : AddParams}

theorem clampedStay_toNat (days : UInt32) : (clampedStay days).toNat = min days.toNat 255 := by
  unfold clampedStay
  by_cases h : days > 255
  · have h' : 255 < days.toNat := UInt32.lt_iff_toNat_lt.1 h
    rw [if_pos h]
    show 255 = _
    omega
  · have h' : ¬ 255 < days.toNat := fun hlt => h (UInt32.lt_iff_toNat_lt.2 hlt)
    rw [if_neg h, UInt32.toNat_toUInt8]
    omega

/-- A bound of the stay is at most 255. -/
def TopParams.StayBounded (p : TopParams) : Prop := (∀ v ∈ p.stayFrom, v.toNat ≤ 255) ∧ ∀ v ∈ p.stayTo, v.toNat ≤ 255

theorem checkStay_bounded {f t : Number} (h : checkStay f t = .ok ()) :
    (∀ v ∈ f, v.toNat ≤ 255) ∧ ∀ v ∈ t, v.toNat ≤ 255 := by
  unfold checkStay raise at h
  by_cases hf : f.any (· > 255)
  · rw [if_pos hf] at h
    cases h
  by_cases ht : t.any (· > 255)
  · rw [if_neg hf, if_pos ht] at h
    cases h
  simp only [Option.any_eq_true, decide_eq_true_eq, not_exists, not_and, gt_iff_lt, UInt32.not_lt] at hf ht
  exact ⟨fun v hv => UInt32.le_iff_toNat_le.1 (hf v hv), fun v hv => UInt32.le_iff_toNat_le.1 (ht v hv)⟩

theorem toUInt8_toNat {v : UInt32} (h : v.toNat ≤ 255) : v.toUInt8.toNat = v.toNat := by
  rw [UInt32.toNat_toUInt8]
  omega

theorem ofDate_and_ne_zero {d : Date} {mask : UInt8} :
    Weekdays.ofDate stray d &&& mask ≠ 0 ↔ mask.toNat.testBit (d.dayOfWeek stray).toNat = true :=
  bit_and_ne_zero ((dayOfWeek_lt stray d).trans (by omega))

/-- **The return side of a deal with a return date.** Only the cut of the stay can show. -/
theorem storedReturn_roundtrip {now : UInt32} {place : Location} (ha : a.ValidDates) (hp : p.ValidDates)
    (hs : p.StayBounded) {r : DateParts} (hr : a.returnDate = some r) :
    StoredReturn stray p (dealRecord stray now place a) ↔ ReturnSide p a ∨ Sentinel stray p a := by
  have hvalid := ha.returns r hr
  have hstay : (dealRecord stray now place a).stayDays.toNat = min (r.number - a.departureDate.number) 255 := by
    simp only [dealRecord, hr]
    rw [clampedStay_toNat, daysAfter_eq hvalid ha.departure (ha.ordered r hr)]
  have hdate : (dealRecord stray now place a).returnDate = r.code := by simp [dealRecord, hr]
  have hday (mask : UInt8) : (dealRecord stray now place a).returnDayOfWeek &&& mask ≠ 0 ↔
      mask.toNat.testBit r.weekday = true := by
    simp only [dealRecord, hr]
    rw [ofDate_and_ne_zero, dayOfWeek_eq hvalid]
  have hfrom (v : UInt32) (hv : v ∈ p.stayFrom) : v.toUInt8 ≤ (dealRecord stray now place a).stayDays ↔
      v.toNat ≤ r.number - a.departureDate.number := by
    have hle := hs.1 v hv
    rw [UInt8.le_iff_toNat_le, hstay, toUInt8_toNat hle]
    omega
  have hto (v : UInt32) (hv : v ∈ p.stayTo) : (dealRecord stray now place a).stayDays ≤ v.toUInt8 ↔
      r.number - a.departureDate.number ≤ v.toNat ∨
        v = 255 ∧ 255 < r.number - a.departureDate.number := by
    have hle := hs.2 v hv
    have hv255 : v = 255 ↔ v.toNat = 255 := by rw [← UInt32.toNat_inj]; rfl
    rw [UInt8.le_iff_toNat_le, hstay, toUInt8_toNat hle, hv255]
    omega
  -- a test passes for the return date itself, but at 255 the cut of a longer stay passes too
  constructor
  · rintro ⟨⟨hret1, hret2⟩, ⟨hstay1, hstay2⟩, hweek⟩
    have h1 (d : DateParts) (hd : d ∈ p.returnDateFrom) : d.number ≤ r.number :=
      (code_le_iff (hp.returnFrom d hd) hvalid).1 (hdate ▸ hret1 d hd)
    have h2 (d : DateParts) (hd : d ∈ p.returnDateTo) : r.number ≤ d.number :=
      (code_le_iff hvalid (hp.returnTo d hd)).1 (hdate ▸ hret2 d hd)
    have h3 (v : UInt32) (hv : v ∈ p.stayFrom) := (hfrom v hv).1 (hstay1 v hv)
    have h5 (mask : UInt8) (hm : mask ∈ p.rweekdays) := (hday mask).1 (hweek mask hm)
    -- either a bound of 255 lets the cut stay pass, or every bound is met by the stay itself
    by_cases hcut : ∃ v ∈ p.stayTo, v = 255 ∧ 255 < r.number - a.departureDate.number
    · obtain ⟨v, hv, rfl, hlong⟩ := hcut
      right
      unfold Sentinel
      rw [hr]
      exact ⟨hv, hlong, h1, h2, h5⟩
    · left
      have h4 (v : UInt32) (hv : v ∈ p.stayTo) : r.number - a.departureDate.number ≤ v.toNat :=
        ((hto v hv).1 (hstay2 v hv)).resolve_right fun hcut' => hcut ⟨v, hv, hcut'⟩
      exact ⟨fun d hd => ⟨r, hr, h1 d hd⟩, fun d hd => ⟨r, hr, h2 d hd⟩, fun v hv => ⟨r, hr, h3 v hv⟩,
        fun v hv => ⟨r, hr, h4 v hv⟩, fun mask hm => ⟨r, hr, h5 mask hm⟩⟩
  · -- from the dates to the record: the five tests one by one
    have hstored (h1 : ∀ d ∈ p.returnDateFrom, d.number ≤ r.number)
        (h2 : ∀ d ∈ p.returnDateTo, r.number ≤ d.number)
        (h3 : ∀ v ∈ p.stayFrom, v.toNat ≤ r.number - a.departureDate.number)
        (h4 : ∀ v ∈ p.stayTo, r.number - a.departureDate.number ≤ v.toNat ∨
          v = 255 ∧ 255 < r.number - a.departureDate.number)
        (h5 : ∀ mask ∈ p.rweekdays, mask.toNat.testBit r.weekday = true) :
        StoredReturn stray p (dealRecord stray now place a) := by
      refine ⟨⟨fun d hd => ?_, fun d hd => ?_⟩, ⟨fun v hv => (hfrom v hv).2 (h3 v hv),
        fun v hv => (hto v hv).2 (h4 v hv)⟩, fun mask hm => (hday mask).2 (h5 mask hm)⟩
      · rw [hdate]
        exact (code_le_iff (hp.returnFrom d hd) hvalid).2 (h1 d hd)
      · rw [hdate]
        exact (code_le_iff hvalid (hp.returnTo d hd)).2 (h2 d hd)
    rintro (hret | hsent)
    · have hsome {P : DateParts → Prop} (h : ∃ r' ∈ a.returnDate, P r') : P r := by
        obtain ⟨r', hr', hP⟩ := h
        rw [hr] at hr'
        cases hr'
        exact hP
      exact hstored (fun d hd => hsome (hret.returnFrom d hd)) (fun d hd => hsome (hret.returnTo d hd))
        (fun v hv => hsome (hret.stayFrom v hv)) (fun v hv => .inl (hsome (hret.stayTo v hv)))
        (fun mask hm => hsome (hret.returnWeekday mask hm))
    · unfold Sentinel at hsent
      rw [hr] at hsent
      obtain ⟨hto255, hlong, h1, h2, h5⟩ := hsent
      refine hstored h1 h2 (fun v hv => ?_) (fun v hv => .inr ⟨?_, hlong⟩) h5
      · have := hs.1 v hv
        omega
      · rw [hto255] at hv
        exact (Option.mem_some_iff.1 hv).symm

/-- **The return side of a one-way deal.** A constraint on it is met by a sentinel or not at all. -/
theorem storedReturn_oneWay {now : UInt32} {place : Location} (hp : p.ValidDates) (hs : p.StayBounded)
    (hr : a.returnDate = none) :
    StoredReturn stray p (dealRecord stray now place a) ↔ ReturnSide p a ∨ Sentinel stray p a := by
  -- the record of a one-way deal has the return date 0, a stay of 255 and a weekday of no date
  have hdate : (dealRecord stray now place a).returnDate = 0 := by simp [dealRecord, hr]
  have hstay : (dealRecord stray now place a).stayDays = 255 := by simp [dealRecord, hr]
  have hday (mask : UInt8) : (dealRecord stray now place a).returnDayOfWeek &&& mask ≠ 0 ↔
      mask.toNat.testBit (strayDay stray).toNat = true := by
    simp only [dealRecord, hr]
    exact ofDate_and_ne_zero
  have hto (v : UInt32) (hv : v ∈ p.stayTo) : (255 : UInt8) ≤ v.toUInt8 ↔ v = 255 := by
    have hle := hs.2 v hv
    have hv255 : v = 255 ↔ v.toNat = 255 := by rw [← UInt32.toNat_inj]; rfl
    rw [UInt8.le_iff_toNat_le, toUInt8_toNat hle, hv255]
    show 255 ≤ v.toNat ↔ _
    omega
  constructor
  · rintro ⟨⟨hret1, hret2⟩, ⟨hstay1, hstay2⟩, hweek⟩
    rw [hdate] at hret1
    -- 0 is below every date, so a lower bound on the return date is not met
    have hnofrom : p.returnDateFrom = none := by
      rw [Option.eq_none_iff_forall_not_mem]
      intro d hd
      have hle := UInt32.le_iff_toNat_le.1 (hret1 d hd)
      have hpos := (hp.returnFrom d hd).code_pos
      simp only [UInt32.toNat_zero] at hle
      omega
    by_cases hasks : p.asksReturn = true
    · right
      unfold Sentinel
      rw [hr]
      exact ⟨hasks, hnofrom, fun v hv => (hto v hv).1 (hstay ▸ hstay2 v hv),
        fun mask hm => (hday mask).1 (hweek mask hm)⟩
    · left
      simp only [TopParams.asksReturn, TopParams.returnGiven, TopParams.stayGiven, Bool.or_eq_true, not_or,
        Bool.not_eq_true, Option.isSome_eq_false_iff, Option.isNone_iff_eq_none] at hasks
      obtain ⟨⟨⟨h1, h2⟩, h3, h4⟩, h5⟩ := hasks
      constructor <;> simp [h1, h2, h3, h4, h5]
  · rintro (⟨h1, h2, h3, h4, h5⟩ | hsent)
    · simp only [hr, Option.mem_def, reduceCtorEq, false_and, exists_false, imp_false] at h1 h2 h3 h4 h5
      exact ⟨⟨fun d hd => (h1 d hd).elim, fun d hd => (h2 d hd).elim⟩,
        ⟨fun v hv => (h3 v hv).elim, fun v hv => (h4 v hv).elim⟩, fun mask hm => (h5 mask hm).elim⟩
    · unfold Sentinel at hsent
      rw [hr] at hsent
      obtain ⟨-, hnofrom, h255, hweek⟩ := hsent
      refine ⟨⟨fun d hd => ?_, fun d hd => ?_⟩, ⟨fun v hv => ?_, fun v hv => ?_⟩, fun mask hm => ?_⟩
      · rw [hnofrom] at hd
        cases hd
      · rw [hdate]
        exact UInt32.le_iff_toNat_le.2 (Nat.zero_le _)
      · rw [hstay, UInt8.le_iff_toNat_le, toUInt8_toNat (hs.1 v hv)]
        exact hs.1 v hv
      · rw [hstay]
        exact (hto v hv).2 (h255 v hv)
      · exact (hday mask).2 (hweek mask hm)

/-! ## The lists of codes -/

theorem mem_foldl_insertSet {α : Type} [DecidableEq α] (x : α) (vs s : List α) :
    x ∈ vs.foldl SearchQuery.insertSet s ↔ x ∈ s ∨ x ∈ vs := by
  induction vs generalizing s with
  | nil => simp
  | cons v vs ih =>
    rw [List.foldl_cons, ih]
    unfold SearchQuery.insertSet
    by_cases hv : v ∈ s
    · rw [if_pos hv, List.mem_cons]
      constructor
      · rintro (h | h)
        exacts [.inl h, .inr (.inr h)]
      · rintro (h | rfl | h)
        exacts [.inl h, .inl hv, .inr h]
    · rw [if_neg hv, List.mem_append, List.mem_singleton, List.mem_cons, or_assoc]

/-- Codes are read off a list when each is defined. -/
theorem mapM_getCode {α : Type} {getCode : Option α → Except Thrown α}
    (hget : ∀ c v, getCode c = .ok v → c = some v) {cs : List (Option α)} {vs : List α}
    (h : cs.mapM getCode = .ok vs) : cs = vs.map some := by
  induction cs generalizing vs with
  | nil =>
    cases h
    rfl
  | cons c cs ih =>
    rw [List.mapM_cons] at h
    rcases hc : getCode c with e | v
    · rw [hc] at h
      cases h
    rcases hcs : cs.mapM getCode with e | vs'
    · rw [hc, hcs] at h
      cases h
    · rw [hc, hcs] at h
      cases h
      rw [List.map_cons, ← ih hcs, hget c v hc]

/-- The filter on a set of codes is the literal one, the list of the request not being empty. -/
theorem codes_iff {α : Type} [DecidableEq α] {getCode : Option α → Except Thrown α}
    (hget : ∀ c v, getCode c = .ok v → c = some v) {o : Option (List (Option α))} {codes : List α} {x : α}
    (hne : ∀ cs ∈ o, cs ≠ [])
    (h : (do let values ← (o.getD []).mapM getCode; return values.foldl SearchQuery.insertSet []) = .ok codes) :
    (codes ≠ [] → x ∈ codes) ↔ ∀ cs ∈ o, some x ∈ cs := by
  rcases hm : (o.getD []).mapM getCode with e | vs
  · rw [hm] at h
    cases h
  rw [hm] at h
  obtain rfl : vs.foldl SearchQuery.insertSet [] = codes := by
    cases h
    rfl
  have hvs := mapM_getCode hget hm
  have hmem (y : α) : y ∈ vs.foldl SearchQuery.insertSet [] ↔ y ∈ vs := by
    rw [mem_foldl_insertSet]
    simp
  have hnil : vs.foldl SearchQuery.insertSet [] = [] ↔ vs = [] := by
    simp only [List.eq_nil_iff_forall_not_mem, hmem]
  rw [ne_eq, hnil, hmem]
  rcases o with _ | cs
  · obtain rfl : vs = [] := by simpa using hvs.symm
    simp
  · have hcs : cs = vs.map some := hvs
    have hvs0 : vs ≠ [] := by
      rintro rfl
      exact hne cs rfl hcs
    simp [hcs, hvs0]

theorem IATACode.getCode_ok (c : IATACode) (v : UInt32) (h : c.getCode = .ok v) : c = some v := by
  rcases c with _ | c
  · cases h
  · cases h
    rfl

theorem CountryCode.getCode_ok (c : CountryCode) (v : UInt8) (h : c.getCode = .ok v) : c = some v := by
  rcases c with _ | c
  · cases h
  · cases h
    rfl

/-! ## The filter -/

/-- The lists of codes of a request are not empty. -/
def TopParams.CodesGiven (p : TopParams) : Prop :=
  (∀ cs ∈ p.destinations, cs ≠ []) ∧ ∀ cs ∈ p.destinationCountries, cs ≠ []

/-- **What the filter reads off the record of a deal**: the plain constraints of the deal itself, the others
in their encoding. -/
theorem passes_dealRecord {clock m now : UInt32} {place : Location} {codes : List UInt32} {countries : List UInt8}
    (ha : a.ValidDates) (hp : p.ValidDates) (hg : p.CodesGiven)
    (hcodes : destinationCodes p.destinations = .ok codes)
    (hcountries : countryCodes p.destinationCountries = .ok countries) :
    Passes clock m p codes countries (dealRecord stray now place a) ↔
      m < now ∧ Plain p a ∧ StoredReturn stray p (dealRecord stray now place a) ∧
        ∀ v ∈ p.timelimit, clock - v ≤ now := by
  have hdest := codes_iff (x := a.destination) IATACode.getCode_ok hg.1 hcodes
  have hcountry := codes_iff (x := a.destinationCountry) CountryCode.getCode_ok hg.2 hcountries
  have hdep := between_dates p.departureDateFrom p.departureDateTo a.departureDate.code
  have hret := between_dates p.returnDateFrom p.returnDateTo (dealRecord stray now place a).returnDate
  have hstay := between_stays p.stayFrom p.stayTo (dealRecord stray now place a).stayDays
  -- a date's code is never 0: that is how the record says whether there is a return
  have htrip (b : Bool) : (b = true ↔ (dealRecord stray now place a).returnDate ≠ 0) ↔
      b = a.returnDate.isSome := by
    rcases hr : a.returnDate with _ | r
    · cases b <;> simp [dealRecord, hr]
    · have hpos := (ha.returns r hr).code_pos
      have hne : r.code ≠ 0 := by
        rintro h0
        rw [h0] at hpos
        exact absurd hpos (by decide)
      cases b <;> simp [dealRecord, hr, hne]
  -- without a return date only the departure can be the date asked for
  have hexact (e : DateParts) (he : e ∈ p.departureOrReturnDate) :
      (dealRecord stray now place a).returnDate = e.code ∨ a.departureDate.code = e.code ↔
        (∃ r ∈ a.returnDate, r.number = e.number) ∨ a.departureDate.number = e.number := by
    rw [code_inj ha.departure (hp.exact e he)]
    rcases hr : a.returnDate with _ | r
    · have hpos := (hp.exact e he).code_pos
      have hne : (0 : UInt32) ≠ e.code := by
        rintro h0
        rw [← h0] at hpos
        exact absurd hpos (by decide)
      simp [dealRecord, hr, hne]
    · simp [dealRecord, hr, code_inj (ha.returns r hr) (hp.exact e he)]
  have hweek (mask : UInt8) : (dealRecord stray now place a).departureDayOfWeek &&& mask ≠ 0 ↔
      mask.toNat.testBit a.departureDate.weekday = true := by
    simp only [dealRecord]
    rw [ofDate_and_ne_zero, dayOfWeek_eq ha.departure]
  -- test for test; the return side stays as the record has it
  constructor
  · rintro ⟨h1, h2, h3, h4, h5, h6, h7, h8, h9, h10, h11, h12, h13⟩
    refine ⟨h1, ⟨h2, hdest.1 h5, hcountry.1 h6, fun d hd => ?_, fun d hd => ?_,
      fun mask hm => (hweek mask).1 (h12 mask hm), fun e he => (hexact e he).1 (h9 e he), h11,
      fun b hb => (htrip b).1 (h4 b hb)⟩, ⟨hret.1 h8, hstay.1 h10, h13⟩, h3⟩
    · exact (code_le_iff (hp.departureFrom d hd) ha.departure).1 ((hdep.1 h7).1 d hd)
    · exact (code_le_iff ha.departure (hp.departureTo d hd)).1 ((hdep.1 h7).2 d hd)
  · rintro ⟨h1, ⟨h2, h3, h4, h5, h6, h7, h8, h9, h10⟩, ⟨hr, hs, hw⟩, ht⟩
    refine ⟨h1, h2, ht, fun b hb => (htrip b).2 (h10 b hb), hdest.2 h3, hcountry.2 h4,
      hdep.2 ⟨fun d hd => ?_, fun d hd => ?_⟩, hret.2 hr, fun e he => (hexact e he).2 (h8 e he), hstay.2 hs, h9,
      fun mask hm => (hweek mask).2 (h7 mask hm), hw⟩
    · exact (code_le_iff (hp.departureFrom d hd) ha.departure).2 (h5 d hd)
    · exact (code_le_iff ha.departure (hp.departureTo d hd)).2 (h6 d hd)

/-! ## What the two requests promise -/

theorem bind_eq_ok {α β : Type} {x : Except Thrown α} {f : α → Except Thrown β} {b : β} :
    (x >>= f) = .ok b ↔ ∃ v, x = .ok v ∧ f v = .ok b := by
  rcases x with e | v <;> simp [bind, Except.bind]

theorem optionalParam_ok {α : Type} {parse : Bytes → Except Thrown (Option α)} {params : ObjectMap} {name : String}
    {v : Option α} (h : optionalParam parse params name = .ok v) : parse (params.get (str name)) = .ok v := by
  unfold optionalParam wrapError raise at h
  split at h
  · cases h
  · exact h

/-- A list of codes that is given has a code. -/
theorem parseCodes_ne_nil {α : Type} {parse : Bytes → Except Thrown α} {text : Bytes} {cs : List α}
    (h : (if text = [] then .ok none else do
      let codes ← (splitString text (str ",")).mapM parse
      return some codes : Except Thrown (Option (List α))) = .ok (some cs)) : cs ≠ [] := by
  by_cases ht : text = []
  · rw [if_pos ht] at h
    cases h
  · rw [if_neg ht, bind_eq_ok] at h
    obtain ⟨codes, hcodes, hsome⟩ := h
    obtain rfl : codes = cs := by
      cases hsome
      rfl
    have hsplit := splitString_ne_nil (by decide : str "," ≠ []) ht
    rcases hparts : splitString text (str ",") with _ | ⟨part, parts⟩
    · exact absurd hparts hsplit
    · rw [hparts, List.mapM_cons, bind_eq_ok] at hcodes
      obtain ⟨v, -, hrest⟩ := hcodes
      obtain ⟨vs, -, hvs⟩ := bind_eq_ok.1 hrest
      cases hvs
      simp

theorem TopParams.read_codesGiven {params : ObjectMap} (h : TopParams.read params = .ok p) : p.CodesGiven := by
  simp only [TopParams.read, bind_eq_ok] at h
  obtain ⟨origin, -, destinations, hdest, countries, hcountry, h⟩ := h
  have hp : p.destinations = destinations ∧ p.destinationCountries = countries := by
    obtain ⟨_, -, _, -, _, -, _, -, _, -, _, -, _, -, _, -, _, -, _, -, h⟩ := h
    obtain ⟨_, -, _, -, _, -, _, -, _, -, _, -, _, -, _, -, h⟩ := h
    cases h
    exact ⟨rfl, rfl⟩
  rw [TopParams.CodesGiven, hp.1, hp.2]
  refine ⟨fun cs hcs => ?_, fun cs hcs => ?_⟩
  · obtain rfl := Option.mem_def.1 hcs
    exact parseCodes_ne_nil (optionalParam_ok hdest)
  · obtain rfl := Option.mem_def.1 hcs
    exact parseCodes_ne_nil (optionalParam_ok hcountry)

/-- A destination of the locale leaves a list that is given. -/
theorem addCodes_ne_nil {result : List UInt32} {d d' : IATACodes} (hd : ∀ cs ∈ d, cs ≠ [])
    (h : result.foldlM IATACodes.addCode d = .ok d') : ∀ cs ∈ d', cs ≠ [] := by
  induction result generalizing d with
  | nil =>
    cases h
    exact hd
  | cons code result ih =>
    rw [List.foldlM_cons, bind_eq_ok] at h
    obtain ⟨d₁, h₁, hrest⟩ := h
    refine ih (fun cs hcs => ?_) hrest
    unfold IATACodes.addCode at h₁
    split_ifs at h₁
    cases h₁
    obtain rfl := Option.mem_some_iff.1 hcs
    simp

/-- **A request of `getTop` names its codes.** -/
theorem TopParams.parse_codesGiven {localeTop : TopParams → Except Thrown (List UInt32)} {params : ObjectMap}
    (h : TopParams.parse localeTop params = .ok p) : p.CodesGiven := by
  rw [TopParams.parse, bind_eq_ok] at h
  obtain ⟨p₀, hread, h⟩ := h
  have hg := TopParams.read_codesGiven hread
  unfold raise at h
  split_ifs at h
  · obtain ⟨result, -, h⟩ := bind_eq_ok.1 h
    obtain ⟨d, hd, h⟩ := bind_eq_ok.1 h
    cases h
    exact ⟨addCodes_ne_nil hg.1 hd, hg.2⟩
  · cases h
    exact hg

/-- **An accepted deal does not return before it departs.** -/
theorem AddParams.parse_ordered {params : ObjectMap} (h : AddParams.parse params = .ok a) :
    Date.gt (some a.departureDate) a.returnDate = false := by
  simp only [AddParams.parse, bind_eq_ok] at h
  obtain ⟨_, -, _, -, _, -, _, -, _, -, _, -, _, -, _, -, h⟩ := h
  unfold raise at h
  split_ifs at h with _ hgt
  cases h
  simpa using hgt

/-! ## The filter and the posted deal -/

/-- The deal as posted satisfies each constraint of the request. -/
def Satisfies (clock timestamp : UInt32) (p : TopParams) (a : AddParams) : Prop :=
  Plain p a ∧ ReturnSide p a ∧ Timely clock timestamp p

/-- The filter is misled: by a sentinel it takes for a value, or by a time limit that wraps around. -/
def Misled (stray : ℤ → UInt8) (clock timestamp : UInt32) (p : TopParams) (a : AddParams) : Prop :=
  Plain p a ∧ ((Sentinel stray p a ∧ ∀ v ∈ p.timelimit, clock - v ≤ timestamp) ∨
    (ReturnSide p a ∧ TimeWraps clock timestamp p))

/-- A sentinel stands for a value that the posted deal does not have. -/
theorem Sentinel.not_returnSide (h : Sentinel stray p a) : ¬ ReturnSide p a := by
  intro hret
  unfold Sentinel at h
  rcases hr : a.returnDate with _ | r
  · rw [hr] at h
    obtain ⟨hasks, hnofrom, -, -⟩ := h
    obtain ⟨-, h2, h3, h4, h5⟩ := hret
    simp only [hr, Option.mem_def, reduceCtorEq, false_and, exists_false, imp_false,
      ← Option.eq_none_iff_forall_ne_some] at h2 h3 h4 h5
    simp [TopParams.asksReturn, TopParams.returnGiven, TopParams.stayGiven, hnofrom, h2, h3, h4, h5] at hasks
  · rw [hr] at h
    obtain ⟨hto, hlong, -⟩ := h
    obtain ⟨r', hr', hle⟩ := hret.stayTo 255 (by rw [hto]; rfl)
    rw [hr, Option.mem_some_iff] at hr'
    subst hr'
    have h255 : (255 : UInt32).toNat = 255 := rfl
    omega

/-- The time limit in the arithmetic of the clock. -/
theorem timely_iff (clock timestamp : UInt32) :
    Timely clock timestamp p ↔ (∀ v ∈ p.timelimit, clock - v ≤ timestamp) ∨ TimeWraps clock timestamp p := by
  unfold Timely TimeWraps
  rcases p.timelimit with _ | v
  · simp
  · simp only [Option.mem_some_iff, forall_eq', exists_eq_left']
    by_cases hwrap : clock < v
    · have hlt := UInt32.lt_iff_toNat_lt.1 hwrap
      have hle : clock.toNat ≤ timestamp.toNat + v.toNat := by omega
      have hcase : clock - v ≤ timestamp ∨ timestamp < clock - v := by
        rw [UInt32.le_iff_toNat_le, UInt32.lt_iff_toNat_lt]
        omega
      exact iff_of_true hle (hcase.imp_right fun h => ⟨hwrap, h⟩)
    · have hge : v ≤ clock := UInt32.not_lt.1 hwrap
      have hge' := UInt32.le_iff_toNat_le.1 hge
      have hsub : clock - v ≤ timestamp ↔ clock.toNat - v.toNat ≤ timestamp.toNat := by
        rw [UInt32.le_iff_toNat_le, UInt32.toNat_sub_of_le _ _ hge]
      rw [hsub]
      constructor
      · intro h
        exact .inl (by omega)
      · rintro (h | ⟨h, -⟩)
        · omega
        · exact absurd h hwrap

theorem TimeWraps.not_timely {clock timestamp : UInt32} (h : TimeWraps clock timestamp p) :
    ¬ ∀ v ∈ p.timelimit, clock - v ≤ timestamp := by
  obtain ⟨v, hv, -, hlt⟩ := h
  intro hall
  have hle := UInt32.le_iff_toNat_le.1 (hall v hv)
  have hlt' := UInt32.lt_iff_toNat_lt.1 hlt
  omega

/-- `pre_search` leaves the filters as they are. -/
theorem preSearch_filter {agg : Aggregation} {q q' : DayQuery} (h : agg.preSearch q = .ok q') (m : UInt32)
    (d : DealInfo) :
    processElement { q'.toSearchQuery with minTimestamp := m } d =
      processElement { q.toSearchQuery with minTimestamp := m } d := by
  cases agg <;> simp only [Aggregation.preSearch, dayPreSearch, raise, bind_eq_ok] at h
  · split_ifs at h
    cases h
    rfl
  · split_ifs at h <;> cases h <;> rfl
  · obtain ⟨-, -, h⟩ := h
    split_ifs at h <;> cases h <;> rfl

/-- **The filter and the posted deal agree, unless the filter is misled.** -/
theorem filter_agrees_iff {stray : ℤ → UInt8} {posted request : ObjectMap}
    {localeTop : TopParams → Except Thrown (List UInt32)} {a : AddParams} {p : TopParams} {u : Uninit}
    {agg : Aggregation} {q : SearchQuery} {q' : DayQuery} {clock m now : UInt32} {place : Location}
    (hadd : AddParams.parse posted = .ok a) (hdeparture : a.departureDate.Valid)
    (hreturn : ∀ r ∈ a.returnDate, r.Valid)
    (htop : TopParams.parse localeTop request = .ok p) (hp : p.ValidDates)
    (hq : buildQuery u clock p = .ok q) (hpre : agg.preSearch { q with groupByReturnDate := false } = .ok q')
    (hfresh : m < now) :
    (processElement { q'.toSearchQuery with minTimestamp := m } (dealRecord stray now place a) = true ↔
      Satisfies clock now p a) ↔ ¬ Misled stray clock now p a := by
  -- that the dates are ordered is checked when the deal is posted
  have ha : a.ValidDates := by
    refine ⟨hdeparture, hreturn, fun r hr => ?_⟩
    have hgt := AddParams.parse_ordered hadd
    rw [Option.mem_def.1 hr] at hgt
    have hle : a.departureDate.code ≤ r.code := by simpa [Date.gt, UInt32.not_lt] using hgt
    exact (code_le_iff hdeparture (hreturn r hr)).1 hle
  -- the query was built, so the checks of the parameters passed
  rw [buildQuery_eq] at hq
  rcases hc : checkParams p with e | c
  · rw [hc] at hq
    cases hq
  rw [hc] at hq
  cases hq
  obtain ⟨hcodes, hcountries, -, -, hstay, -⟩ := checkParams_ok.1 hc
  have hs : p.StayBounded := checkStay_bounded hstay
  have hside : StoredReturn stray p (dealRecord stray now place a) ↔ ReturnSide p a ∨ Sentinel stray p a := by
    rcases hr : a.returnDate with _ | r
    · exact storedReturn_oneWay hp hs hr
    · exact storedReturn_roundtrip ha hp hs hr
  rw [preSearch_filter hpre, processElement_queryOf,
    passes_dealRecord ha hp (TopParams.parse_codesGiven htop) hcodes hcountries, hside]
  unfold Satisfies Misled
  rw [timely_iff]
  -- a sentinel or a wrapped clock is what sets the two sides apart
  have hone : Sentinel stray p a → ¬ ReturnSide p a := Sentinel.not_returnSide
  have hwrap : TimeWraps clock now p → ¬ ∀ v ∈ p.timelimit, clock - v ≤ now := TimeWraps.not_timely
  grind

/-- A deal to Moscow and back in the first half of June. -/
def postedReturn : ObjectMap :=
  [⟨str "origin", str "LED"⟩, ⟨str "destination", str "MOW"⟩, ⟨str "destination_country", str "RU"⟩,
    ⟨str "locale", str "ru"⟩, ⟨str "price", str "100"⟩, ⟨str "direct_flight", str "true"⟩,
    ⟨str "departure_date", str "2016-06-01"⟩, ⟨str "return_date", str "2016-06-15"⟩]

/-- The same deal without the way back. -/
def postedOneWay : ObjectMap := postedReturn.take 7

/-- A request for deals that return by the end of June. -/
def requestReturnTo : ObjectMap := [⟨str "origin", str "LED"⟩, ⟨str "return_date_to", str "2016-06-30"⟩]

/-- A day of June 2016. -/
def june (day : UInt8) : DateParts := ⟨20160600 + day.toUInt32, day, 6, 2016⟩

/-- What `addDeal` reads of these deals. -/
def juneDeal (returnDate : Date) : AddParams := ⟨returnDate, june 1, 100, 184, 184, 1145392128, 1464814848, true⟩

/-- What `getTop` reads of the request. -/
def juneRequest : TopParams :=
  ⟨1145392128, none, none, none, none, none, some (june 30), none, none, none, none, none, none, none, none, none,
    none, none, none, none, none⟩

/-- The memory a query is constructed in, cleared. -/
def clearedMemory : Uninit := ⟨0, ⟨0, 0, 0⟩, ⟨0, 0, 0⟩, 0, 0, false, false, 0, 0, ⟨0, 0⟩, 0⟩

/-- The query of the request. -/
def juneQuery : SearchQuery := queryOf clearedMemory 100000 juneRequest [] []

theorem june_valid : (june 1).Valid ∧ (june 15).Valid ∧ (june 30).Valid :=
  ⟨⟨⟨by decide, by decide, by decide⟩, by decide, by decide⟩,
    ⟨⟨by decide, by decide, by decide⟩, by decide, by decide⟩,
    ⟨⟨by decide, by decide, by decide⟩, by decide, by decide⟩⟩

theorem juneRequest_validDates : juneRequest.ValidDates := by
  constructor <;> simp [juneRequest, june_valid.2.2]

theorem filter_agrees_june :
    (processElement { juneQuery with minTimestamp := 1 }
        (dealRecord 0 2 ⟨[], 0, 0⟩ (juneDeal (some (june 15)))) = true ↔
      Satisfies 100000 2 juneRequest (juneDeal (some (june 15)))) ↔
      ¬ Misled 0 100000 2 juneRequest (juneDeal (some (june 15))) := by
  have hadd : AddParams.parse postedReturn = .ok (juneDeal (some (june 15))) := by decide +kernel
  have htop : TopParams.parse (fun _ => .ok []) requestReturnTo = .ok juneRequest := by decide +kernel
  have hreturn : ∀ r ∈ (juneDeal (some (june 15))).returnDate, r.Valid := by
    intro r hr
    cases hr
    exact june_valid.2.1
  have hquery : buildQuery clearedMemory 100000 juneRequest = .ok juneQuery := rfl
  have hpre : Aggregation.preSearch { juneQuery with groupByReturnDate := false } .simplyCheapest =
      .ok { juneQuery with groupByReturnDate := false } := rfl
  exact filter_agrees_iff hadd june_valid.1 hreturn htop juneRequest_validDates hquery hpre (by decide)

/-- A deal without a return date passes a filter on the return date. -/
theorem oneWay_returns :
    ∃ a p q, AddParams.parse postedOneWay = .ok a ∧ a.departureDate.Valid ∧ a.returnDate = none ∧
      TopParams.parse (fun _ => .ok []) requestReturnTo = .ok p ∧ p.ValidDates ∧
      buildQuery clearedMemory 100000 p = .ok q ∧
      processElement { q with minTimestamp := 1 } (dealRecord 0 2 ⟨[], 0, 0⟩ a) = true ∧
      ¬ Satisfies 100000 2 p a := by
  refine ⟨juneDeal none, juneRequest, juneQuery, by decide +kernel,
    june_valid.1, rfl, by decide +kernel, juneRequest_validDates, rfl, by decide +kernel, ?_⟩
  rintro ⟨-, hret, -⟩
  obtain ⟨r, hr, -⟩ := hret.returnTo (june 30) rfl
  cases hr

end DealsServer
