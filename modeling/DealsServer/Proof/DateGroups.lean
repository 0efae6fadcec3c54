import DealsServer.Proof.Narrowing
import DealsServer.Proof.Ranking
import DealsServer.Proof.Texts
import Mathlib.Order.Interval.Finset.Nat

/-!
# Deals by date

`CheapestByDay` cuts its answer at a number of days, and each of these days can be the date of one group.

* `dateGroups_iff`: no group is cut off, unless the search is for one date and the days from the first departure to
  the last return do not fit 16 bits.
* `far_return_cut`: a deal that returns 65535 days after it departs is cut off.
-/

namespace DealsServer

open Selection

/-! ## Codes of dates -/

/-- The code of a date of the calendar. -/
def CalendarCode (code : UInt32) : Prop := ∃ d : DateParts, d.Valid ∧ d.code = code

/-- The number of the day of a code. -/
def dayOf (code : UInt32) : ℕ := (DateParts.ofCode code).number

theorem dayOf_code {d : DateParts} (hd : d.Valid) : dayOf d.code = d.number := by
  obtain ⟨-, htriple⟩ := ofCode_valid hd.isDate hd.year_le hd.code_eq
  obtain ⟨hyear, hmonth, hday⟩ : (DateParts.ofCode d.code).year.toNat = d.year.toNat ∧
      (DateParts.ofCode d.code).month.toNat = d.month.toNat ∧ (DateParts.ofCode d.code).day.toNat = d.day.toNat := by
    simpa [DateParts.triple] using htriple
  rw [dayOf, DateParts.number, DateParts.number, hyear, hmonth, hday]

namespace CalendarCode

variable {x y : UInt32}

theorem le_iff (hx : CalendarCode x) (hy : CalendarCode y) : x ≤ y ↔ dayOf x ≤ dayOf y := by
  obtain ⟨d, hd, rfl⟩ := hx
  obtain ⟨e, he, rfl⟩ := hy
  rw [dayOf_code hd, dayOf_code he, code_le_iff hd he]

theorem inj (hx : CalendarCode x) (hy : CalendarCode y) : x = y ↔ dayOf x = dayOf y := by
  obtain ⟨d, hd, rfl⟩ := hx
  obtain ⟨e, he, rfl⟩ := hy
  rw [dayOf_code hd, dayOf_code he, code_inj hd he]

theorem pos (hx : CalendarCode x) : 0 < x.toNat := by
  obtain ⟨d, hd, rfl⟩ := hx
  exact hd.code_pos

theorem toNat_lt (hx : CalendarCode x) : x.toNat < 2 ^ 27 := by
  obtain ⟨d, hd, rfl⟩ := hx
  have hyear := hd.year_le
  have hmonth := hd.isDate.month.2
  have hday := hd.isDate.day.2.trans (Calendar.daysInMonth_le _ _)
  have hcode := hd.code_eq
  omega

end CalendarCode

/-- The dates of the record are dates of the calendar, or there is no return date. -/
structure DealInfo.StoredDates (d : DealInfo) : Prop where
  departure : CalendarCode d.departureDate
  returns : d.returnDate = 0 ∨ CalendarCode d.returnDate

/-- The record does not return before it departs. -/
def DealInfo.Ordered (d : DealInfo) : Prop := d.returnDate = 0 ∨ d.departureDate ≤ d.returnDate

/-! ## Counting -/

/-- Distinct keys that are numbered within an interval are no more than the interval is long. -/
theorem card_le_of_injOn {keys : Finset UInt32} {f : UInt32 → ℕ} {lo hi : ℕ}
    (hmem : ∀ k ∈ keys, lo ≤ f k ∧ f k ≤ hi) (hinj : ∀ k ∈ keys, ∀ k' ∈ keys, f k = f k' → k = k') :
    keys.card ≤ hi + 1 - lo := by
  have hcard : keys.card ≤ (Finset.Icc lo hi).card :=
    Finset.card_le_card_of_injOn f (fun k hk => Finset.mem_coe.2 (Finset.mem_Icc.2 (hmem k hk)))
      fun k hk k' hk' h => hinj k hk k' hk' h
  rwa [Nat.card_Icc] at hcard

/-! ## Searches by day -/

/-- The answer has a winner for each key. -/
theorem answer_onePer (agg : Aggregation) (q : DayQuery) {order : List UInt32 → List UInt32}
    (horder : ∀ l, (order l).Perm l) (deals : List DealInfo) :
    OnePer (agg.key q) deals (agg.answer q order deals) := by
  have ht : Tracked (agg.key q) deals (groupsOf (agg.key q) deals) := tracked_groupsOf deals
  have hperm := answer_perm agg q horder deals
  have hkeys : ((groupsOf (agg.key q) deals).keys.map (winner (agg.key q) deals)).map (agg.key q) =
      (groupsOf (agg.key q) deals).keys := by
    rw [List.map_map]
    exact (List.map_congr_left fun k hk => (winner_mem hk).2).trans (List.map_id _)
  have hsame := hperm.map (agg.key q)
  rw [hkeys] at hsame
  refine ⟨fun d hd => ?_, hsame.nodup_iff.2 ht.nodup, fun k => by rw [hsame.mem_iff, ht.mem_keys]⟩
  obtain ⟨k, hk, rfl⟩ := List.mem_map.1 (hperm.mem_iff.1 hd)
  exact (winner_mem hk).1

/-- **What a search by day returns**: the answer for the matching records, cut at the limit of `pre_search`. -/
theorem daySearch_eq {w : SearchWorld} {q : SearchQuery} {q' : DayQuery} {records result : List DealInfo}
    (hpre : dayPreSearch { q with groupByReturnDate := false } = .ok q') (hrecords : w.records = .ok records)
    (hresult : execute .cheapestByDay w q = .ok result) :
    result = (Aggregation.cheapestByDay.answer { q' with minTimestamp := minTimestamp w.globalExpireAt w.clock }
      w.order (matching w q records)).take q'.filterResultLimit.toNat := by
  have hpre' : Aggregation.preSearch { q with groupByReturnDate := false } .cheapestByDay = .ok q' := hpre
  have hmatching : matching w q records = records.filter
      (processElement { q'.toSearchQuery with minTimestamp := minTimestamp w.globalExpireAt w.clock }) :=
    List.filter_congr fun d _ => (preSearch_filter hpre' _ d).symm
  rw [execute_eq, hpre'] at hresult
  simp only [bind, Except.bind, found, hrecords] at hresult
  cases hresult
  rw [hmatching]
  rfl

/-- The limit and the grouping that `pre_search` chooses. -/
theorem dayPreSearch_plan {q : SearchQuery} {q' : DayQuery}
    (hpre : dayPreSearch { q with groupByReturnDate := false } = .ok q') :
    q' = { q with
        filterResultLimit := (dayLimit q q.departureDateValues.duration q.returnDateValues.duration).1
        groupByReturnDate := (dayLimit q q.departureDateValues.duration q.returnDateValues.duration).2 } ∧
      (q.filterDepartureDate = true → q.departureDateValues.duration ≤ 367) ∧
      (q.filterReturnDate = true → q.returnDateValues.duration ≤ 367) ∧
      (q.filterAllCombinations = true → (q.departureDateValues.duration ≠ 0 ∧ q.returnDateValues.duration ≠ 0) ∧
        q.departureDateValues.duration ≤ 11 ∧ q.returnDateValues.duration ≤ 11) := by
  rw [dayPreSearch_eq] at hpre
  rcases hplan : dayPlan q q.departureDateValues.duration q.returnDateValues.duration with e | plan
  · rw [hplan] at hpre
    cases hpre
  · rw [hplan] at hpre
    unfold dayPlan raise at hplan
    split_ifs at hplan with hnone hlong hall hmissing hwide
    · cases hplan
      cases hpre
      simp only [not_or, not_and, gt_iff_lt, UInt32.not_lt] at hlong hmissing hwide
      exact ⟨rfl, hlong.1, hlong.2, fun _ => ⟨hmissing, hwide⟩⟩
    · cases hplan
      cases hpre
      simp only [not_or, not_and, gt_iff_lt, UInt32.not_lt] at hlong
      exact ⟨rfl, hlong.1, hlong.2, fun h => absurd h hall⟩

/-! ## The bounds of a request -/

/-- The four bounds of a request, dates of the calendar. -/
structure FourBounds (p : TopParams) (a b c d : DateParts) : Prop where
  departureFrom : p.departureDateFrom = some a
  departureTo : p.departureDateTo = some b
  returnFrom : p.returnDateFrom = some c
  returnTo : p.returnDateTo = some d
  valid : a.Valid ∧ b.Valid ∧ c.Valid ∧ d.Valid

/-- The request passes the date check of `getTop`. -/
theorem TopParams.parse_badDates {localeTop : TopParams → Except Thrown (List UInt32)} {params : ObjectMap}
    {p : TopParams} (h : TopParams.parse localeTop params = .ok p) : p.badDates = false := by
  rw [TopParams.parse, bind_eq_ok] at h
  obtain ⟨p₀, -, h⟩ := h
  unfold raise at h
  split_ifs at h with hbad
  · obtain ⟨result, -, h⟩ := bind_eq_ok.1 h
    obtain ⟨destinations, -, h⟩ := bind_eq_ok.1 h
    cases h
    exact Bool.eq_false_iff.2 hbad
  · cases h
    exact Bool.eq_false_iff.2 hbad

theorem not_gt_iff {d e : DateParts} (hd : d.Valid) (he : e.Valid) :
    Date.gt (some d) (some e) = false ↔ d.number ≤ e.number := by
  rw [← code_le_iff hd he, ← UInt32.not_lt]
  exact decide_eq_false_iff_not

/-- The days of an interval, both ends counted. -/
theorem dateInterval_duration {d e : DateParts} (hd : d.Valid) (he : e.Valid) (hle : d.number ≤ e.number) :
    (SearchQuery.dateInterval (some d) (some e)).duration.toNat = e.number - d.number + 1 := by
  have hdays := daysAfter_eq he hd hle
  have hbound := dayNumber_le he.isDate he.year_le
  show (Date.daysAfter (some e) (some d) + 1).toNat = _
  rw [UInt32.toNat_add, hdays]
  unfold DateParts.number at hle ⊢
  show (_ + 1) % 2 ^ 32 = _
  omega

namespace FourBounds

variable {p : TopParams} {a b c d : DateParts}

/-- The bounds are in order. -/
theorem ordered (hb : FourBounds p a b c d) (hgood : p.badDates = false) :
    a.number ≤ b.number ∧ b.number ≤ d.number ∧ a.number ≤ c.number ∧ c.number ≤ d.number := by
  obtain ⟨ha, hb', hc, hd⟩ := hb.valid
  rw [TopParams.badDates, hb.departureFrom, hb.departureTo, hb.returnFrom, hb.returnTo] at hgood
  simp only [Bool.or_eq_false_iff, not_gt_iff hc hd, not_gt_iff ha hb', not_gt_iff ha hc, not_gt_iff ha hd,
    not_gt_iff hb' hd] at hgood
  omega

/-- The dates of a record that matches. -/
structure Within (p : TopParams) (a b c d : DateParts) (x : DealInfo) : Prop where
  departure : CalendarCode x.departureDate
  returns : CalendarCode x.returnDate
  departureFrom : a.number ≤ dayOf x.departureDate
  departureTo : dayOf x.departureDate ≤ b.number
  returnFrom : c.number ≤ dayOf x.returnDate
  returnTo : dayOf x.returnDate ≤ d.number
  exact : ∀ e ∈ p.departureOrReturnDate, x.returnDate = e.code ∨ x.departureDate = e.code

theorem within {clock m : UInt32} {codes : List UInt32} {countries : List UInt8} (hb : FourBounds p a b c d)
    {x : DealInfo} (hx : x.StoredDates) (hpass : Passes clock m p codes countries x) : Within p a b c d x := by
  obtain ⟨ha, hb', hc, hd⟩ := hb.valid
  have hdep := (between_dates _ _ _).1 hpass.departure
  have hret := (between_dates _ _ _).1 hpass.returns
  rw [hb.departureFrom, hb.departureTo] at hdep
  rw [hb.returnFrom, hb.returnTo] at hret
  have hfrom := hret.1 c rfl
  -- without a return date the record does not pass
  have hreturns : CalendarCode x.returnDate := by
    refine hx.returns.resolve_left fun hzero => ?_
    have hpos := hc.code_pos
    rw [hzero, UInt32.le_iff_toNat_le] at hfrom
    exact absurd hpos (by simpa using hfrom)
  have hcode {date : DateParts} (hdate : date.Valid) : CalendarCode date.code := ⟨date, hdate, rfl⟩
  refine ⟨hx.departure, hreturns, ?_, ?_, ?_, ?_, hpass.exact⟩
  · rw [← dayOf_code ha]
    exact ((hcode ha).le_iff hx.departure).1 (hdep.1 a rfl)
  · rw [← dayOf_code hb']
    exact (hx.departure.le_iff (hcode hb')).1 (hdep.2 b rfl)
  · rw [← dayOf_code hc]
    exact ((hcode hc).le_iff hreturns).1 hfrom
  · rw [← dayOf_code hd]
    exact (hreturns.le_iff (hcode hd)).1 (hret.2 d rfl)

end FourBounds

/-! ## How many groups there are -/

/-- The mark of the groups by return date, in a search for one date. -/
theorem toNat_mark {r : UInt32} (hr : r.toNat < 2 ^ 31) : (r ||| 0x80000000).toNat = r.toNat + 2 ^ 31 := by
  have hor := Nat.two_pow_add_eq_or_of_lt hr 1
  rw [mul_one] at hor
  rw [UInt32.toNat_or]
  show r.toNat ||| 2 ^ 31 = _
  rw [Nat.or_comm, ← hor, add_comm]

/-- The number of the day in a key of a search for one date. -/
def keyDay (k : UInt32) : ℕ := if k.toNat < 2 ^ 31 then dayOf k else dayOf (k - 0x80000000)

theorem keyDay_code {k : UInt32} (hk : CalendarCode k) : keyDay k = dayOf k := by
  have hlt := hk.toNat_lt
  rw [keyDay, if_pos (by omega)]

theorem keyDay_mark {r : UInt32} (hr : CalendarCode r) : keyDay (r ||| 0x80000000) = dayOf r := by
  have hlt := hr.toNat_lt
  have hmark := toNat_mark (r := r) (by omega)
  have hsub : (r ||| 0x80000000) - 0x80000000 = r := by
    rw [← UInt32.toNat_inj, UInt32.toNat_sub_of_le _ _ (UInt32.le_iff_toNat_le.2 (by rw [hmark]; exact Nat.le_add_left _ _)),
      hmark]
    exact Nat.add_sub_cancel _ _
  rw [keyDay, if_neg (by omega), hsub]

variable {p : TopParams} {a b c d e : DateParts} {q : DayQuery} {xs : List DealInfo}

/-- The keys of a search for one date: departures up to that date, and marked returns behind it. -/
theorem exactKey_cases (hexact : q.filterExactDate = true) (hvalue : q.exactDateValue = e.code)
    (he : p.departureOrReturnDate = some e) {x : DealInfo} (hx : FourBounds.Within p a b c d x) (hord : x.Ordered) :
    (CalendarCode (getDateToGroup q x) ∧ a.number ≤ dayOf (getDateToGroup q x) ∧
        dayOf (getDateToGroup q x) ≤ dayOf e.code ∧ dayOf e.code ≤ d.number) ∨
      ∃ r, CalendarCode r ∧ getDateToGroup q x = r ||| 0x80000000 ∧ a.number ≤ dayOf e.code ∧ dayOf e.code < dayOf r ∧
        dayOf r ≤ d.number := by
  have hle : dayOf x.departureDate ≤ dayOf x.returnDate := by
    refine (hx.departure.le_iff hx.returns).1 (hord.resolve_left fun hzero => ?_)
    have hpos := hx.returns.pos
    rw [hzero] at hpos
    exact absurd hpos (by decide)
  unfold getDateToGroup
  rw [if_pos hexact, hvalue]
  by_cases hreturn : e.code = x.returnDate
  · left
    rw [if_pos hreturn, hreturn]
    exact ⟨hx.departure, hx.departureFrom, hle, hx.returnTo⟩
  · right
    have hdepart : x.departureDate = e.code :=
      (hx.exact e he).resolve_left fun h => hreturn h.symm
    have hne : dayOf x.departureDate ≠ dayOf x.returnDate := fun h =>
      hreturn (hdepart ▸ (hx.departure.inj hx.returns).2 h)
    rw [if_neg hreturn, ← hdepart]
    exact ⟨x.returnDate, hx.returns, rfl, hx.departureFrom, by omega, hx.returnTo⟩

/-- **A search for one date** has no more groups than there are days from the first departure to the last return. -/
theorem exact_card (hexact : q.filterExactDate = true) (hvalue : q.exactDateValue = e.code)
    (he : p.departureOrReturnDate = some e) (hxs : ∀ x ∈ xs, FourBounds.Within p a b c d x ∧ x.Ordered) :
    (xs.map (getDateToGroup q)).toFinset.card ≤ d.number + 1 - a.number := by
  have hkey (k : UInt32) (hk : k ∈ (xs.map (getDateToGroup q)).toFinset) :
      (CalendarCode k ∧ a.number ≤ dayOf k ∧ dayOf k ≤ dayOf e.code ∧ dayOf e.code ≤ d.number) ∨
        ∃ r, CalendarCode r ∧ k = r ||| 0x80000000 ∧ a.number ≤ dayOf e.code ∧ dayOf e.code < dayOf r ∧
          dayOf r ≤ d.number := by
    obtain ⟨x, hx, rfl⟩ := List.mem_map.1 (List.mem_toFinset.1 hk)
    exact exactKey_cases hexact hvalue he (hxs x hx).1 (hxs x hx).2
  refine card_le_of_injOn (f := keyDay) (fun k hk => ?_) fun k hk k' hk' hsame => ?_
  · rcases hkey k hk with ⟨hcode, hlow, hmid, hhigh⟩ | ⟨r, hcode, rfl, hlow, hmid, hhigh⟩
    · rw [keyDay_code hcode]
      omega
    · rw [keyDay_mark hcode]
      omega
  · -- the date of the search lies between the two kinds of keys
    rcases hkey k hk with ⟨hcode, -, hmid, -⟩ | ⟨r, hcode, rfl, -, hmid, -⟩ <;>
      rcases hkey k' hk' with ⟨hcode', -, hmid', -⟩ | ⟨r', hcode', rfl, -, hmid', -⟩
    · rw [keyDay_code hcode, keyDay_code hcode'] at hsame
      exact (hcode.inj hcode').2 hsame
    · rw [keyDay_code hcode, keyDay_mark hcode'] at hsame
      omega
    · rw [keyDay_mark hcode, keyDay_code hcode'] at hsame
      omega
    · rw [keyDay_mark hcode, keyDay_mark hcode'] at hsame
      rw [(hcode.inj hcode').2 hsame]

/-- Groups by one of the dates are no more than the days of its interval. -/
theorem plain_card {f : DealInfo → UInt32} {lo hi : ℕ}
    (hxs : ∀ x ∈ xs, CalendarCode (f x) ∧ lo ≤ dayOf (f x) ∧ dayOf (f x) ≤ hi) :
    (xs.map f).toFinset.card ≤ hi + 1 - lo := by
  have hkey (k : UInt32) (hk : k ∈ (xs.map f).toFinset) : CalendarCode k ∧ lo ≤ dayOf k ∧ dayOf k ≤ hi := by
    obtain ⟨x, hx, rfl⟩ := List.mem_map.1 (List.mem_toFinset.1 hk)
    exact hxs x hx
  exact card_le_of_injOn (fun k hk => (hkey k hk).2) fun k hk k' hk' hsame =>
    ((hkey k hk).1.inj (hkey k' hk').1).2 hsame

/-! ## The limit -/

section Limit

variable {u : Uninit} {now : UInt32} {codes : List UInt32} {countries : List UInt8}

/-- The durations of the two intervals, and of the days from the first departure to the last return. -/
theorem fourBounds_durations (u : Uninit) (now : UInt32) (codes : List UInt32) (countries : List UInt8)
    (hb : FourBounds p a b c d) (hgood : p.badDates = false) :
    (queryOf u now p codes countries).departureDateValues.duration.toNat = b.number - a.number + 1 ∧
      (queryOf u now p codes countries).returnDateValues.duration.toNat = d.number - c.number + 1 ∧
      (queryOf u now p codes countries).departureReturnMaxDuration.toNat = d.number - a.number + 1 := by
  obtain ⟨ha, hb', hc, hd⟩ := hb.valid
  obtain ⟨hab, hbd, hac, hcd⟩ := hb.ordered hgood
  refine ⟨?_, ?_, ?_⟩
  · simp only [queryOf, TopParams.departureGiven, hb.departureFrom, hb.departureTo, Option.isSome_some,
      Bool.or_true, if_true]
    exact dateInterval_duration ha hb' hab
  · simp only [queryOf, TopParams.returnGiven, hb.returnFrom, hb.returnTo, Option.isSome_some, Bool.or_true, if_true]
    exact dateInterval_duration hc hd hcd
  · simp only [queryOf, maxDuration, hb.departureFrom, hb.returnTo, Option.isSome_some, Bool.and_true, if_true]
    exact dateInterval_duration ha hd (by omega)

theorem toUInt16_toNat {v : UInt32} (h : v ≤ 367) : v.toUInt16.toNat = v.toNat := by
  have hle : v.toNat ≤ 367 := UInt32.le_iff_toNat_le.1 h
  rw [UInt32.toNat_toUInt16]
  exact Nat.mod_eq_of_lt (by omega)

/-- A search for one date is cut at the days from the first departure to the last return, in 16 bits. -/
theorem exact_limit (hb : FourBounds p a b c d) (hgood : p.badDates = false)
    (hexact : p.departureOrReturnDate = some e)
    (hpre : dayPreSearch { queryOf u now p codes countries with groupByReturnDate := false } = .ok q) :
    q.filterExactDate = true ∧ q.exactDateValue = e.code ∧
      q.filterResultLimit.toNat = (d.number - a.number + 1) % 2 ^ 16 := by
  obtain ⟨rfl, -⟩ := dayPreSearch_plan hpre
  have hspan := (fourBounds_durations u now codes countries hb hgood).2.2
  have hfilter : (queryOf u now p codes countries).filterExactDate = true := by simp [queryOf, hexact]
  have hne : (queryOf u now p codes countries).departureReturnMaxDuration ≠ 0 := by
    intro hzero
    rw [hzero] at hspan
    exact absurd hspan.symm (Nat.succ_ne_zero _)
  refine ⟨hfilter, by simp [queryOf, hexact], ?_⟩
  rw [← hspan, ← UInt32.toNat_toUInt16]
  simp only [dayLimit, if_pos hfilter, if_pos hne]

/-- Any other search groups by one of the two dates, and is cut at the days of its interval. -/
theorem plain_limit (hb : FourBounds p a b c d) (hgood : p.badDates = false) (hall : p.allCombinations ≠ some true)
    (hexact : p.departureOrReturnDate = none)
    (hpre : dayPreSearch { queryOf u now p codes countries with groupByReturnDate := false } = .ok q) :
    (getDateToGroup q = DealInfo.returnDate ∧ q.filterResultLimit.toNat = d.number - c.number + 1) ∨
      (getDateToGroup q = DealInfo.departureDate ∧ q.filterResultLimit.toNat = b.number - a.number + 1) := by
  obtain ⟨hdepartures, hreturns, -⟩ :=
    fourBounds_durations u now codes countries hb hgood
  obtain ⟨rfl, hdep, hret, -⟩ := dayPreSearch_plan hpre
  have hdep := hdep (by simp [queryOf, TopParams.departureGiven, hb.departureFrom])
  have hret := hret (by simp [queryOf, TopParams.returnGiven, hb.returnFrom])
  have hfilter : (queryOf u now p codes countries).filterExactDate = false := by simp [queryOf, hexact]
  have hcombinations : (queryOf u now p codes countries).filterAllCombinations = false := by
    show p.allCombinations.getD false = false
    rcases hflag : p.allCombinations with - | ⟨- | -⟩
    · rfl
    · rfl
    · exact absurd hflag hall
  have hplan (dep ret : UInt32) : dayLimit (queryOf u now p codes countries) dep ret =
      if dep ≤ 1 then (if ret ≠ 0 then ret.toUInt16 else (queryOf u now p codes countries).filterResultLimit, true)
      else (dep.toUInt16, false) := by
    simp [dayLimit, hfilter, hcombinations]
  rw [hplan]
  by_cases hone : (queryOf u now p codes countries).departureDateValues.duration ≤ 1
  · left
    -- the return interval is given, so its duration is not 0
    have hne : (queryOf u now p codes countries).returnDateValues.duration ≠ 0 := by
      intro hzero
      rw [hzero] at hreturns
      exact absurd hreturns.symm (Nat.succ_ne_zero _)
    rw [if_pos hone, if_pos hne, ← hreturns, ← toUInt16_toNat hret]
    exact ⟨funext fun x => by simp [getDateToGroup, hfilter, hcombinations], rfl⟩
  · right
    rw [if_neg hone, ← hdepartures, ← toUInt16_toNat hdep]
    exact ⟨funext fun x => by simp [getDateToGroup, hfilter, hcombinations], rfl⟩

end Limit

/-! ## The theorem -/

/-- **No date of a search by day is cut off**, unless the search is for one date and the days from the first
departure to the last return do not fit the limit. -/
theorem dateGroups_iff {localeTop : TopParams → Except Thrown (List UInt32)} {params : ObjectMap} {u : Uninit}
    {now : UInt32} {query : SearchQuery} {w : SearchWorld} {records result : List DealInfo}
    (hparse : TopParams.parse localeTop params = .ok p) (hb : FourBounds p a b c d)
    (hall : p.allCombinations ≠ some true) (hquery : buildQuery u now p = .ok query)
    (hpre : dayPreSearch { query with groupByReturnDate := false } = .ok q) (hrecords : w.records = .ok records)
    (hdates : ∀ x ∈ records, x.StoredDates ∧ x.Ordered) (hresult : execute .cheapestByDay w query = .ok result) :
    OnePer (getDateToGroup q) (matching w query records) result ↔
      p.departureOrReturnDate = none ∨ d.number - a.number + 1 < 2 ^ 16 ∨
        ((matching w query records).map (getDateToGroup q)).toFinset.card ≤ (d.number - a.number + 1) % 2 ^ 16 := by
  have hgood := TopParams.parse_badDates hparse
  obtain ⟨hab, hbd, hac, hcd⟩ := hb.ordered hgood
  obtain ⟨codes, countries, -, rfl⟩ := buildQuery_ok hquery
  have hanswer : OnePer (getDateToGroup q) _ _ := answer_onePer .cheapestByDay
    { q with minTimestamp := minTimestamp w.globalExpireAt w.clock } w.orderPerm
    (matching w (queryOf u now p codes countries) records)
  -- the deals that pass depart and return within the four bounds
  have hwithin (x : DealInfo) (hx : x ∈ matching w (queryOf u now p codes countries) records) :
      FourBounds.Within p a b c d x ∧ x.Ordered := by
    obtain ⟨hmem, hpass⟩ := List.mem_filter.1 hx
    rw [processElement_queryOf] at hpass
    exact ⟨hb.within (hdates x hmem).1 hpass, (hdates x hmem).2⟩
  rw [daySearch_eq hpre hrecords hresult, hanswer.take_iff]
  rcases hexact : p.departureOrReturnDate with - | e
  · -- in the two plain modes the limit is the number of days of the interval
    refine iff_of_true ?_ (.inl rfl)
    rcases plain_limit hb hgood hall hexact hpre with ⟨hkey, hlimit⟩ | ⟨hkey, hlimit⟩
    · rw [hkey, hlimit]
      have hcard := plain_card (f := DealInfo.returnDate) fun x hx =>
        ⟨(hwithin x hx).1.returns, (hwithin x hx).1.returnFrom, (hwithin x hx).1.returnTo⟩
      omega
    · rw [hkey, hlimit]
      have hcard := plain_card (f := DealInfo.departureDate) fun x hx =>
        ⟨(hwithin x hx).1.departure, (hwithin x hx).1.departureFrom, (hwithin x hx).1.departureTo⟩
      omega
  · -- with an exact date the limit is a `uint16_t` of the days from the first bound to the last
    obtain ⟨hfilter, hvalue, hlimit⟩ := exact_limit hb hgood hexact hpre
    have hcard := exact_card hfilter hvalue hexact hwithin
    rw [hlimit]
    constructor
    · exact fun hle => .inr (.inr hle)
    · rintro (hnone | hfits | hle)
      · cases hnone
      · rw [Nat.mod_eq_of_lt hfits]
        omega
      · exact hle

/-- A request for the deals of 1 June 2016 that return on one day. -/
def returnRequest (day : String) : ObjectMap :=
  [⟨str "origin", str "LED"⟩, ⟨str "group_by_date", str "true"⟩, ⟨str "departure_date_from", str "2016-06-01"⟩,
    ⟨str "departure_date_to", str "2016-06-01"⟩, ⟨str "return_date_from", str day⟩, ⟨str "return_date_to", str day⟩,
    ⟨str "departure_or_return_date", str "2016-06-01"⟩]

/-- What `getTop` reads of the request. -/
def returnParams (day : DateParts) : TopParams :=
  ⟨1145392128, none, none, some (june 1), some (june 1), some day, some day, none, none, none, none, none, none, none,
    none, none, some true, none, none, some (june 1), none⟩

/-- The query of the request. -/
def returnQuery (day : DateParts) : SearchQuery := queryOf clearedMemory 100000 (returnParams day) [] []

/-- A deal from 1 June 2016 to the day. -/
def returnDeal (day : DateParts) : DealInfo :=
  { fare 20160601 100 90000 with origin := 1145392128, returnDate := day.code }

/-- A table with this deal. -/
def returnWorld (day : DateParts) : SearchWorld where
  lifetimeClock := 100000
  clock := 100000
  globalExpireAt := 0
  records := .ok [returnDeal day]
  order := id
  payload _ := .ok []
  orderPerm := fun l => List.Perm.refl l

/-- The day 65535 days after 1 June 2016. -/
def farDay : DateParts := ⟨21951105, 5, 11, 2195⟩

theorem farDay_valid : farDay.Valid := ⟨⟨by decide, by decide, by decide⟩, by decide, by decide⟩

theorem returnParams_bounds {day : DateParts} (hday : day.Valid) :
    FourBounds (returnParams day) (june 1) (june 1) day day :=
  ⟨rfl, rfl, rfl, rfl, june_valid.1, june_valid.1, hday, hday⟩

theorem returnWorld_dates {day : DateParts} (hday : day.Valid) (hle : (june 1).code ≤ day.code) :
    ∀ x ∈ [returnDeal day], x.StoredDates ∧ x.Ordered := by
  intro x hx
  rw [List.mem_singleton.1 hx]
  exact ⟨⟨⟨june 1, june_valid.1, rfl⟩, .inr ⟨day, hday, rfl⟩⟩, .inr hle⟩

theorem dateGroups_june :
    ∃ q result, dayPreSearch { returnQuery (june 15) with groupByReturnDate := false } = .ok q ∧
      (OnePer (getDateToGroup q) (matching (returnWorld (june 15)) (returnQuery (june 15)) [returnDeal (june 15)])
          result ↔
        (returnParams (june 15)).departureOrReturnDate = none ∨ (june 15).number - (june 1).number + 1 < 2 ^ 16 ∨
          ((matching (returnWorld (june 15)) (returnQuery (june 15)) [returnDeal (june 15)]).map
            (getDateToGroup q)).toFinset.card ≤ ((june 15).number - (june 1).number + 1) % 2 ^ 16) := by
  obtain ⟨q, hpre⟩ : ∃ q, dayPreSearch { returnQuery (june 15) with groupByReturnDate := false } = .ok q := ⟨_, rfl⟩
  obtain ⟨result, hresult⟩ : ∃ result,
      execute .cheapestByDay (returnWorld (june 15)) (returnQuery (june 15)) = .ok result := ⟨_, rfl⟩
  have hparse : TopParams.parse (fun _ => .ok []) (returnRequest "2016-06-15") = .ok (returnParams (june 15)) := by
    decide +kernel
  have hquery : buildQuery clearedMemory 100000 (returnParams (june 15)) = .ok (returnQuery (june 15)) := rfl
  exact ⟨q, result, hpre, dateGroups_iff hparse (returnParams_bounds june_valid.2.1) (by decide) hquery hpre rfl
    (returnWorld_dates june_valid.2.1 (by decide)) hresult⟩

/-- **A group is cut off.** The days from 1 June 2016 to 5 November 2195 are 65536, a limit of 0 in 16 bits, and the
one deal that matches is not returned. -/
theorem far_return_cut :
    ∃ q, TopParams.parse (fun _ => .ok []) (returnRequest "2195-11-05") = .ok (returnParams farDay) ∧
      FourBounds (returnParams farDay) (june 1) (june 1) farDay farDay ∧
      buildQuery clearedMemory 100000 (returnParams farDay) = .ok (returnQuery farDay) ∧
      dayPreSearch { returnQuery farDay with groupByReturnDate := false } = .ok q ∧
      execute .cheapestByDay (returnWorld farDay) (returnQuery farDay) = .ok [] ∧
      (returnWorld farDay).records = .ok [returnDeal farDay] ∧
      (∀ x ∈ [returnDeal farDay], x.StoredDates ∧ x.Ordered) ∧
      ¬ OnePer (getDateToGroup q) (matching (returnWorld farDay) (returnQuery farDay) [returnDeal farDay]) [] := by
  obtain ⟨q, hpre⟩ : ∃ q, dayPreSearch { returnQuery farDay with groupByReturnDate := false } = .ok q := ⟨_, rfl⟩
  obtain ⟨result, hresult⟩ : ∃ result,
      execute .cheapestByDay (returnWorld farDay) (returnQuery farDay) = .ok result := ⟨_, rfl⟩
  have hlimit : q.filterResultLimit.toNat = 0 := by
    have hzero : (dayPreSearch { returnQuery farDay with groupByReturnDate := false }).map
        (fun q => q.filterResultLimit.toNat) = .ok 0 := by decide +kernel
    rw [hpre] at hzero
    exact Except.ok.inj hzero
  have hempty : result = [] := by
    rw [daySearch_eq hpre rfl hresult, hlimit, List.take_zero]
  refine ⟨q, by decide +kernel, returnParams_bounds farDay_valid, rfl, hpre, hempty ▸ hresult,
    rfl, returnWorld_dates farDay_valid (by decide), fun hone => ?_⟩
  -- the deal matches, so its group is one of those that the answer must have
  have hmatch : matching (returnWorld farDay) (returnQuery farDay) [returnDeal farDay] = [returnDeal farDay] := by
    decide +kernel
  have hkey := (hone.keys _).2 (hmatch ▸ List.mem_map_of_mem (List.mem_singleton.2 rfl))
  cases hkey

end DealsServer
