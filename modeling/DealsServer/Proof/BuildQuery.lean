import DealsServer.Spec.Search

/-!
# The query of a request

`buildQuery_eq`: the setters reject a request by checks that look at the request alone (`checkParams`), and
else build one record (`queryOf`), in which a member without initialiser keeps its old contents only
where its filter is off. `processElement_queryOf` says which records pass that query (`Passes`); no such
contents are in it.
-/

namespace DealsServer

/-- The check of `departure_dates` and `return_dates`. -/
def checkDates (message : String) (dateFrom dateTo : Date) : Except Thrown Unit :=
  if (dateFrom.isSome || dateTo.isSome) ∧
      (SearchQuery.dateInterval dateFrom dateTo).dateFrom > (SearchQuery.dateInterval dateFrom dateTo).dateTo then
    raise (str message)
  else .ok ()

/-- The interval that `stay_days` stores. -/
def stayInterval (stayFrom stayTo : Number) : StayInterval :=
  ⟨(stayFrom.getD 0).toUInt8, (stayTo.getD 255).toUInt8⟩

/-- The checks of `stay_days`. -/
def checkStay (stayFrom stayTo : Number) : Except Thrown Unit :=
  if stayFrom.any (· > 255) then raise (str "stay_from > 255")
  else if stayTo.any (· > 255) then raise (str "stay_to > 255")
  else if (stayInterval stayFrom stayTo).stayFrom > (stayInterval stayFrom stayTo).stayTo then
    raise (str "stay_from > stay_to")
  else .ok ()

/-- The check of `result_limit`. -/
def checkLimit (limit : Number) : Except Thrown Unit :=
  if limit.any (fun v => !(v > 0 ∧ v ≤ 367)) then raise (str "deals_limit to big\n") else .ok ()

/-- The codes of the destinations, an undefined one among them being an error. -/
def destinationCodes (destinations : IATACodes) : Except Thrown (List UInt32) := do
  let values ← (destinations.getD []).mapM IATACode.getCode
  return values.foldl SearchQuery.insertSet []

/-- The codes of the countries. -/
def countryCodes (countries : CountryCodes) : Except Thrown (List UInt8) := do
  let values ← (countries.getD []).mapM CountryCode.getCode
  return values.foldl SearchQuery.insertSet []

/-- The checks of the setters, in their order. -/
def checkParams (p : TopParams) : Except Thrown (List UInt32 × List UInt8) := do
  let codes ← destinationCodes p.destinations
  let countries ← countryCodes p.destinationCountries
  checkDates "departure_dates departure_date_from > departure_date_to\n" p.departureDateFrom p.departureDateTo
  checkDates "departure_dates return_date_from > return_date_to\n" p.returnDateFrom p.returnDateTo
  checkStay p.stayFrom p.stayTo
  checkLimit p.dealsLimit
  return (codes, countries)

/-- A bound of the departure interval is given. -/
def TopParams.departureGiven (p : TopParams) : Bool := p.departureDateFrom.isSome || p.departureDateTo.isSome

/-- A bound of the return interval is given. -/
def TopParams.returnGiven (p : TopParams) : Bool := p.returnDateFrom.isSome || p.returnDateTo.isSome

/-- A bound of the stay is given. -/
def TopParams.stayGiven (p : TopParams) : Bool := p.stayFrom.isSome || p.stayTo.isSome

/-- What `calc_departue_return_max_duration` stores. -/
def maxDuration (departureFrom departureTo returnFrom returnTo : Date) : UInt32 :=
  if departureFrom.isSome && returnTo.isSome then returnTo.daysAfter departureFrom + 1
  else
    let depRange := if departureFrom.isSome && departureTo.isSome then
      departureTo.daysAfter departureFrom + 1 else 0
    let retRange := if returnFrom.isSome && returnTo.isSome then returnTo.daysAfter returnFrom + 1 else 0
    if depRange > retRange then depRange else retRange

/-- The query the setters build. -/
def queryOf (u : Uninit) (now : UInt32) (p : TopParams) (codes : List UInt32) (countries : List UInt8) :
    SearchQuery where
  originValue := p.origin
  departureDateValues := if p.departureGiven then
    SearchQuery.dateInterval p.departureDateFrom p.departureDateTo else u.departureDateValues
  returnDateValues := if p.returnGiven then
    SearchQuery.dateInterval p.returnDateFrom p.returnDateTo else u.returnDateValues
  exactDateValue := (p.departureOrReturnDate.map (·.code)).getD u.exactDateValue
  timestampValue := (p.timelimit.map (now - ·)).getD u.timestampValue
  directFlightsFlag := p.directFlights.getD u.directFlightsFlag
  roundtripFlightFlag := p.roundtripFlights.getD u.roundtripFlightFlag
  departureWeekdaysBitmask := p.dweekdays.getD u.departureWeekdaysBitmask
  returnWeekdaysBitmask := p.rweekdays.getD u.returnWeekdaysBitmask
  stayDaysValues := if p.stayGiven then stayInterval p.stayFrom p.stayTo else u.stayDaysValues
  localeValue := u.localeValue
  departureReturnMaxDuration := maxDuration p.departureDateFrom p.departureDateTo p.returnDateFrom p.returnDateTo
  minTimestamp := 0
  filterOrigin := true
  filterDestination := !codes.isEmpty
  destinationValuesSet := codes
  filterDestinationCountry := !countries.isEmpty
  destinationCountrySet := countries
  filterDepartureDate := p.departureGiven
  filterReturnDate := p.returnGiven
  filterExactDate := p.departureOrReturnDate.isSome
  filterTimestamp := p.timelimit.isSome
  filterFlightByStops := p.directFlights.isSome
  filterFlightByRoundtrip := p.roundtripFlights.isSome
  filterDepartureWeekdays := p.dweekdays.isSome
  filterReturnWeekdays := p.rweekdays.isSome
  filterStayDays := p.stayGiven
  filterResultLimit := (p.dealsLimit.map (·.toUInt16)).getD 20
  filterLocale := false
  filterAllCombinations := p.allCombinations.getD false

namespace SearchQuery

variable (q : SearchQuery)

theorem destinations_eq (d : IATACodes) (hset : q.destinationValuesSet = []) :
    q.destinations d = (destinationCodes d).map fun codes =>
      { q with destinationValuesSet := codes, filterDestination := q.filterDestination || !codes.isEmpty } := by
  cases d with
  | none =>
    have hcodes : destinationCodes none = .ok [] := rfl
    rw [hcodes]
    cases q
    simp only at hset
    simp [destinations, Except.map, hset]
  | some codes =>
    simp only [destinations, destinationCodes, Option.getD_some]
    cases codes.mapM IATACode.getCode <;> rfl

theorem destinationCountries_eq (c : CountryCodes) (hset : q.destinationCountrySet = []) :
    q.destinationCountries c = (countryCodes c).map fun countries =>
      { q with
        destinationCountrySet := countries
        filterDestinationCountry := q.filterDestinationCountry || !countries.isEmpty } := by
  cases c with
  | none =>
    have hcodes : countryCodes none = .ok [] := rfl
    rw [hcodes]
    cases q
    simp only at hset
    simp [destinationCountries, Except.map, hset]
  | some codes =>
    simp only [destinationCountries, countryCodes, Option.getD_some]
    cases codes.mapM CountryCode.getCode <;> rfl

theorem departureDates_eq (f t : Date) :
    q.departureDates f t = (checkDates "departure_dates departure_date_from > departure_date_to\n" f t).map
      fun _ => { q with
        filterDepartureDate := q.filterDepartureDate || (f.isSome || t.isSome)
        departureDateValues := if f.isSome || t.isSome then dateInterval f t else q.departureDateValues } := by
  by_cases hgiven : f.isSome || t.isSome
  · have hnone : (f.isNone && t.isNone) = false := by cases f <;> cases t <;> simp_all
    by_cases hbad : (dateInterval f t).dateFrom > (dateInterval f t).dateTo <;>
      simp [departureDates, checkDates, hgiven, hnone, hbad, Except.map, raise]
  · have hnone : (f.isNone && t.isNone) = true := by cases f <;> cases t <;> simp_all
    simp [departureDates, checkDates, hgiven, hnone, Except.map]

theorem returnDates_eq (f t : Date) :
    q.returnDates f t = (checkDates "departure_dates return_date_from > return_date_to\n" f t).map
      fun _ => { q with
        filterReturnDate := q.filterReturnDate || (f.isSome || t.isSome)
        returnDateValues := if f.isSome || t.isSome then dateInterval f t else q.returnDateValues } := by
  by_cases hgiven : f.isSome || t.isSome
  · have hnone : (f.isNone && t.isNone) = false := by cases f <;> cases t <;> simp_all
    by_cases hbad : (dateInterval f t).dateFrom > (dateInterval f t).dateTo <;>
      simp [returnDates, checkDates, hgiven, hnone, hbad, Except.map, raise]
  · have hnone : (f.isNone && t.isNone) = true := by cases f <;> cases t <;> simp_all
    simp [returnDates, checkDates, hgiven, hnone, Except.map]

theorem stayDays_eq (f t : Number) :
    q.stayDays f t = (checkStay f t).map fun _ =>
      { q with
        filterStayDays := q.filterStayDays || (f.isSome || t.isSome)
        stayDaysValues := if f.isSome || t.isSome then stayInterval f t else q.stayDaysValues } := by
  by_cases hgiven : f.isSome || t.isSome
  · have hnone : (f.isNone && t.isNone) = false := by cases f <;> cases t <;> simp_all
    simp only [stayDays, checkStay, hgiven, hnone, Bool.or_true, if_true, Bool.false_eq_true, if_false]
    by_cases h1 : f.any (· > 255)
    · simp only [h1, if_true]
      rfl
    · by_cases h2 : t.any (· > 255)
      · simp only [h1, h2, if_true]
        rfl
      · by_cases h3 : (stayInterval f t).stayFrom > (stayInterval f t).stayTo
        · simp only [h1, h2, if_pos h3]
          exact if_pos h3
        · simp only [h1, h2, if_neg h3]
          exact if_neg h3
  · have hf : f = none := by cases f <;> simp_all
    have ht : t = none := by cases t <;> simp_all
    subst hf ht
    simp [stayDays, checkStay, stayInterval, Except.map]

theorem resultLimit_eq (limit : Number) :
    q.resultLimit limit = (checkLimit limit).map fun _ =>
      { q with filterResultLimit := (limit.map (·.toUInt16)).getD q.filterResultLimit } := by
  cases limit with
  | none => rfl
  | some v =>
    by_cases h : v > 0 ∧ v ≤ 367
    · simp [resultLimit, checkLimit, h.1, h.2, Except.map]
    · have hbad : (some v).any (fun v => !(v > 0 ∧ v ≤ 367)) = true := by
        rw [Option.any_some, decide_eq_false h]
        rfl
      simp only [resultLimit, if_neg h, checkLimit, hbad, if_true]
      rfl

theorem maxLifetimeSec_eq (now : UInt32) (v : Number) :
    maxLifetimeSec now q v = { q with
      filterTimestamp := q.filterTimestamp || v.isSome
      timestampValue := (v.map (now - ·)).getD q.timestampValue } := by
  cases v <;> simp [maxLifetimeSec]

theorem departureWeekdays_eq (d : Weekdays) :
    q.departureWeekdays d = { q with
      filterDepartureWeekdays := q.filterDepartureWeekdays || d.isSome
      departureWeekdaysBitmask := d.getD q.departureWeekdaysBitmask } := by
  cases d <;> simp [departureWeekdays]

theorem returnWeekdays_eq (d : Weekdays) :
    q.returnWeekdays d = { q with
      filterReturnWeekdays := q.filterReturnWeekdays || d.isSome
      returnWeekdaysBitmask := d.getD q.returnWeekdaysBitmask } := by
  cases d <;> simp [returnWeekdays]

theorem directFlights_eq (b : Boolean) :
    q.directFlights b = { q with
      filterFlightByStops := q.filterFlightByStops || b.isSome
      directFlightsFlag := b.getD q.directFlightsFlag } := by
  cases b <;> simp [directFlights]

theorem roundtripFlights_eq (b : Boolean) :
    q.roundtripFlights b = { q with
      filterFlightByRoundtrip := q.filterFlightByRoundtrip || b.isSome
      roundtripFlightFlag := b.getD q.roundtripFlightFlag } := by
  cases b <;> simp [roundtripFlights]

theorem exactDepartureOrReturnDate_eq (d : Date) :
    q.exactDepartureOrReturnDate d = { q with
      filterExactDate := q.filterExactDate || d.isSome
      exactDateValue := (d.map (·.code)).getD q.exactDateValue } := by
  cases d <;> simp [exactDepartureOrReturnDate]

theorem allCombinations_eq (b : Boolean) :
    q.allCombinations b = { q with filterAllCombinations := b.getD q.filterAllCombinations } := by
  cases b <;> simp [allCombinations]

theorem calcDepartueReturnMaxDuration_eq (a b c d : Date) :
    q.calcDepartueReturnMaxDuration a b c d =
      { q with departureReturnMaxDuration := maxDuration a b c d } := by
  unfold calcDepartueReturnMaxDuration maxDuration
  split_ifs <;> rfl

end SearchQuery

/-- **What the setters build.** -/
theorem buildQuery_eq (u : Uninit) (now : UInt32) (p : TopParams) :
    buildQuery u now p = (checkParams p).map fun c => queryOf u now p c.1 c.2 := by
  dsimp only [buildQuery, checkParams]
  -- setter by setter, in the order of the source: one that throws ends both sides
  rw [SearchQuery.destinations_eq _ _ rfl]
  rcases destinationCodes p.destinations with e | codes
  · rfl
  simp only [Except.map, bind, Except.bind]
  rw [SearchQuery.destinationCountries_eq _ _ rfl]
  rcases countryCodes p.destinationCountries with e | countries
  · rfl
  simp only [Except.map, SearchQuery.departureDates_eq]
  rcases checkDates "departure_dates departure_date_from > departure_date_to\n" p.departureDateFrom
    p.departureDateTo with e | ⟨⟩
  · rfl
  simp only [Except.map, SearchQuery.returnDates_eq]
  rcases checkDates "departure_dates return_date_from > return_date_to\n" p.returnDateFrom
    p.returnDateTo with e | ⟨⟩
  · rfl
  simp only [Except.map, SearchQuery.stayDays_eq]
  rcases checkStay p.stayFrom p.stayTo with e | ⟨⟩
  · rfl
  simp only [Except.map, SearchQuery.resultLimit_eq]
  rcases checkLimit p.dealsLimit with e | ⟨⟩
  · rfl
  simp only [pure, Except.pure, SearchQuery.departureWeekdays_eq, SearchQuery.returnWeekdays_eq,
    SearchQuery.directFlights_eq, SearchQuery.roundtripFlights_eq, SearchQuery.maxLifetimeSec_eq,
    SearchQuery.exactDepartureOrReturnDate_eq, SearchQuery.calcDepartueReturnMaxDuration_eq,
    SearchQuery.allCombinations_eq, queryOf, SearchQuery.init, SearchQuery.origin, Bool.false_or]
  rfl

/-- A request is accepted when each check accepts it. -/
theorem checkParams_ok {p : TopParams} {c : List UInt32 × List UInt8} :
    checkParams p = .ok c ↔
      destinationCodes p.destinations = .ok c.1 ∧ countryCodes p.destinationCountries = .ok c.2 ∧
      checkDates "departure_dates departure_date_from > departure_date_to\n" p.departureDateFrom
        p.departureDateTo = .ok () ∧
      checkDates "departure_dates return_date_from > return_date_to\n" p.returnDateFrom p.returnDateTo = .ok () ∧
      checkStay p.stayFrom p.stayTo = .ok () ∧ checkLimit p.dealsLimit = .ok () := by
  unfold checkParams
  rcases destinationCodes p.destinations with e | codes
  · simp [bind, Except.bind]
  rcases countryCodes p.destinationCountries with e | countries
  · simp [bind, Except.bind]
  rcases checkDates "departure_dates departure_date_from > departure_date_to\n" p.departureDateFrom
    p.departureDateTo with e | ⟨⟩
  · simp [bind, Except.bind]
  rcases checkDates "departure_dates return_date_from > return_date_to\n" p.returnDateFrom
    p.returnDateTo with e | ⟨⟩
  · simp [bind, Except.bind]
  rcases checkStay p.stayFrom p.stayTo with e | ⟨⟩
  · simp [bind, Except.bind]
  rcases checkLimit p.dealsLimit with e | ⟨⟩
  · simp [bind, Except.bind]
  · simp [bind, Except.bind, pure, Except.pure, Prod.ext_iff]

theorem checkLimit_some {v : UInt32} : checkLimit (some v) = .ok () ↔ 0 < v ∧ v ≤ 367 := by
  unfold checkLimit
  by_cases h : 0 < v ∧ v ≤ 367
  · rw [if_neg (by simp [h.1, h.2])]
    exact ⟨fun _ => h, fun _ => rfl⟩
  · have hany : (some v : Number).any (fun v => !(v > 0 ∧ v ≤ 367)) = true := by
      rw [Option.any_some, Bool.not_eq_true', decide_eq_false_iff_not]
      exact h
    rw [if_pos hany]
    exact ⟨nofun, fun h' => absurd h' h⟩

/-- An accepted limit is what was asked for. -/
theorem checkLimit_toNat {limit : Number} (h : checkLimit limit = .ok ()) :
    ((limit.map UInt32.toUInt16).getD 20).toNat = (limit.map UInt32.toNat).getD 20 := by
  rcases limit with _ | v
  · rfl
  · have hnat := UInt32.le_iff_toNat_le.1 (checkLimit_some.1 h).2
    show v.toUInt16.toNat = v.toNat
    rw [UInt32.toNat_toUInt16]
    exact Nat.mod_eq_of_lt (lt_of_le_of_lt hnat (by decide))

/-! ## The filter -/

/-- The record passes every filter of the request. -/
structure Passes (now minTimestamp : UInt32) (p : TopParams) (codes : List UInt32) (countries : List UInt8)
    (d : DealInfo) : Prop where
  fresh : minTimestamp < d.timestamp
  origin : p.origin = d.origin
  timelimit : ∀ v ∈ p.timelimit, now - v ≤ d.timestamp
  roundtrip : ∀ b ∈ p.roundtripFlights, (b = true ↔ d.returnDate ≠ 0)
  destinations : codes ≠ [] → d.destination ∈ codes
  countries : countries ≠ [] → d.destinationCountry ∈ countries
  departure : p.departureGiven = true →
    (SearchQuery.dateInterval p.departureDateFrom p.departureDateTo).dateFrom ≤ d.departureDate ∧
      d.departureDate ≤ (SearchQuery.dateInterval p.departureDateFrom p.departureDateTo).dateTo
  returns : p.returnGiven = true →
    (SearchQuery.dateInterval p.returnDateFrom p.returnDateTo).dateFrom ≤ d.returnDate ∧
      d.returnDate ≤ (SearchQuery.dateInterval p.returnDateFrom p.returnDateTo).dateTo
  exact : ∀ e ∈ p.departureOrReturnDate, d.returnDate = e.code ∨ d.departureDate = e.code
  stay : p.stayGiven = true →
    (stayInterval p.stayFrom p.stayTo).stayFrom ≤ d.stayDays ∧
      d.stayDays ≤ (stayInterval p.stayFrom p.stayTo).stayTo
  direct : ∀ b ∈ p.directFlights, b = d.direct
  departureWeekday : ∀ mask ∈ p.dweekdays, d.departureDayOfWeek &&& mask ≠ 0
  returnWeekday : ∀ mask ∈ p.rweekdays, d.returnDayOfWeek &&& mask ≠ 0

theorem ite_false_eq_true (c : Prop) [Decidable c] (x : Bool) :
    ((if c then false else x) = true) ↔ ¬ c ∧ x = true := by
  by_cases h : c <;> simp [h]

/-- A filter that is on when its parameter is given looks at the parameter only. -/
theorem filter_option {α β : Type} (o : Option α) (f : α → β) (b : β) (P : β → Prop) :
    ¬ (o.isSome = true ∧ P ((o.map f).getD b)) ↔ ∀ v ∈ o, ¬ P (f v) := by
  cases o <;> simp

theorem filter_given {α : Type} (c : Bool) (a b : α) (P : α → Prop) :
    ¬ (c = true ∧ P (if c = true then a else b)) ↔ (c = true → ¬ P a) := by
  cases c <;> simp

theorem not_outside32 {a b x : UInt32} : ¬ (x < a ∨ x > b) ↔ a ≤ x ∧ x ≤ b := by
  rw [not_or, UInt32.not_lt, UInt32.not_lt]

theorem not_outside8 {a b x : UInt8} : ¬ (x < a ∨ x > b) ↔ a ≤ x ∧ x ≤ b := by
  rw [not_or, UInt8.not_lt, UInt8.not_lt]

theorem not_both_ne {a b c : UInt32} : ¬ (a ≠ c ∧ b ≠ c) ↔ a = c ∨ b = c := by
  rw [not_and_or, not_not, not_not]

theorem roundtrip_iff (b : Bool) (r : UInt32) :
    (b = true ↔ r ≠ 0) ↔ ¬ (b = true ∧ r = 0) ∧ ¬ (¬ b = true ∧ r ≠ 0) := by
  by_cases hr : r = 0 <;> cases b <;> simp [hr]

theorem processElement_queryOf (u : Uninit) (now m : UInt32) (p : TopParams) (codes : List UInt32)
    (countries : List UInt8) (d : DealInfo) :
    processElement { queryOf u now p codes countries with minTimestamp := m } d = true ↔
      Passes now m p codes countries d := by
  -- a filter that is off leaves its value uninitialised and does not read it
  have htime := filter_option p.timelimit (now - ·) u.timestampValue (fun t => t > d.timestamp)
  have htrip := filter_option p.roundtripFlights id u.roundtripFlightFlag
    (fun b => b = true ∧ d.returnDate = 0)
  have hone := filter_option p.roundtripFlights id u.roundtripFlightFlag
    (fun b => ¬ b = true ∧ d.returnDate ≠ 0)
  have hdep := filter_given p.departureGiven (SearchQuery.dateInterval p.departureDateFrom p.departureDateTo)
    u.departureDateValues (fun i => d.departureDate < i.dateFrom ∨ d.departureDate > i.dateTo)
  have hret := filter_given p.returnGiven (SearchQuery.dateInterval p.returnDateFrom p.returnDateTo)
    u.returnDateValues (fun i => d.returnDate < i.dateFrom ∨ d.returnDate > i.dateTo)
  have hexact := filter_option p.departureOrReturnDate (·.code) u.exactDateValue
    (fun e => d.returnDate ≠ e ∧ d.departureDate ≠ e)
  have hstay := filter_given p.stayGiven (stayInterval p.stayFrom p.stayTo) u.stayDaysValues
    (fun i => d.stayDays < i.stayFrom ∨ d.stayDays > i.stayTo)
  have hdirect := filter_option p.directFlights id u.directFlightsFlag (fun b => b ≠ d.direct)
  have hdw := filter_option p.dweekdays id u.departureWeekdaysBitmask
    (fun mask => d.departureDayOfWeek &&& mask = 0)
  have hrw := filter_option p.rweekdays id u.returnWeekdaysBitmask
    (fun mask => d.returnDayOfWeek &&& mask = 0)
  simp only [Option.map_id, id_eq] at htrip hone hdirect hdw hrw
  simp only [processElement, ite_false_eq_true]
  simp only [queryOf, htime, htrip, hone, hdep, hret, hexact, hstay, hdirect, hdw, hrw, not_outside32,
    not_outside8, UInt32.not_lt, UInt32.not_le]
  constructor
  · rintro ⟨h1, h2, h3, h4, h5, h6, h7, h8, h9, h10, h11, h12, h13, h14, -⟩
    exact ⟨h1, by simpa using h2, h3, fun b hb => (roundtrip_iff b _).2 ⟨h4 b hb, h5 b hb⟩,
      by simpa using h6, by simpa using h7, h8, h9, fun e he => not_both_ne.1 (h10 e he), h11,
      fun b hb => not_not.1 (h12 b hb), h13, h14⟩
  · rintro ⟨h1, h2, h3, h4, h5, h6, h7, h8, h9, h10, h11, h12, h13⟩
    exact ⟨h1, by simpa using h2, h3, fun b hb => ((roundtrip_iff b _).1 (h4 b hb)).1,
      fun b hb => ((roundtrip_iff b _).1 (h4 b hb)).2, by simpa using h5, by simpa using h6, h7, h8,
      fun e he => not_both_ne.2 (h9 e he), h10, fun b hb => not_not.2 (h11 b hb), h12, h13, trivial⟩

end DealsServer
