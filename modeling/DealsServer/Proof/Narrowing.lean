import DealsServer.Proof.Filters

/-!
# Narrower requests

A request narrows another when each constraint of the other is kept or made stricter, and more constraints may be
added.

* `narrows_forwards_iff`: a deal that the narrower query forwards is forwarded by the wider one, unless the wider
  time limit alone lies before the epoch of the clock.
-/

namespace DealsServer

variable {p p' : TopParams} {clock m : UInt32} {d : DealInfo}

/-- The list of the narrower request is a part of the wider one's, and not empty. -/
def NarrowsCodes {α : Type} (wide narrow : Option (List α)) : Prop :=
  ∀ codes ∈ wide, ∃ codes' ∈ narrow, codes' ≠ [] ∧ codes' ⊆ codes

/-- The days of the narrower request are among the wider one's, and there is one. -/
def NarrowsDays (wide narrow : Weekdays) : Prop :=
  ∀ mask ∈ wide, ∃ mask' ∈ narrow, mask' ≠ 0 ∧ mask' &&& mask = mask'

/-- `narrow` has all constraints of `wide`, as strict or stricter, and maybe more. -/
structure Narrows (wide narrow : TopParams) : Prop where
  origin : narrow.origin = wide.origin
  directFlights : narrow.directFlights = wide.directFlights
  roundtripFlights : narrow.roundtripFlights = wide.roundtripFlights
  exact : narrow.departureOrReturnDate = wide.departureOrReturnDate
  destinations : NarrowsCodes wide.destinations narrow.destinations
  countries : NarrowsCodes wide.destinationCountries narrow.destinationCountries
  departureFrom : ∀ e ∈ wide.departureDateFrom, ∃ e' ∈ narrow.departureDateFrom, e.code ≤ e'.code
  departureTo : ∀ e ∈ wide.departureDateTo, ∃ e' ∈ narrow.departureDateTo, e'.code ≤ e.code
  returnFrom : ∀ e ∈ wide.returnDateFrom, ∃ e' ∈ narrow.returnDateFrom, e.code ≤ e'.code
  returnTo : ∀ e ∈ wide.returnDateTo, ∃ e' ∈ narrow.returnDateTo, e'.code ≤ e.code
  dweekdays : NarrowsDays wide.dweekdays narrow.dweekdays
  rweekdays : NarrowsDays wide.rweekdays narrow.rweekdays
  stayFrom : ∀ v ∈ wide.stayFrom, ∃ v' ∈ narrow.stayFrom, v ≤ v'
  stayTo : ∀ v ∈ wide.stayTo, ∃ v' ∈ narrow.stayTo, v' ≤ v
  timelimit : ∀ v ∈ wide.timelimit, ∃ v' ∈ narrow.timelimit, v' ≤ v

/-- The wider time limit, and not the narrower one, is longer than the clock is old, so that it begins near the end
of the clock's range, and the deal is older than that. -/
def LimitWraps (clock timestamp : UInt32) (wide narrow : TopParams) : Prop :=
  ∃ v ∈ wide.timelimit, ∃ v' ∈ narrow.timelimit,
    v'.toNat ≤ clock.toNat ∧ clock.toNat < v.toNat ∧ timestamp.toNat + v.toNat < clock.toNat + 2 ^ 32

/-! ## The single filters -/

/-- A code in the narrower list is in the wider one, when a list is given. -/
theorem NarrowsCodes.meets {α : Type} [DecidableEq α] {getCode : Option α → Except Thrown α}
    (hget : ∀ c v, getCode c = .ok v → c = some v) {wide narrow : Option (List (Option α))} {codes codes' : List α}
    (h : NarrowsCodes wide narrow)
    (hcodes : (do let values ← (wide.getD []).mapM getCode; return values.foldl SearchQuery.insertSet []) = .ok codes)
    (hcodes' : (do let values ← (narrow.getD []).mapM getCode; return values.foldl SearchQuery.insertSet []) =
      .ok codes') {x : α} (hx : codes' ≠ [] → x ∈ codes') : codes ≠ [] → x ∈ codes := by
  have hne : ∀ cs ∈ wide, cs ≠ [] := by
    rintro cs hcs rfl
    obtain ⟨cs', -, hne', hsub⟩ := h [] hcs
    exact hne' (List.subset_nil.1 hsub)
  rw [codes_iff hget hne hcodes]
  intro cs hcs
  obtain ⟨cs', hcs', hne', hsub⟩ := h cs hcs
  have hgiven : ∀ cs ∈ narrow, cs ≠ [] := by
    intro cs hcs
    obtain rfl := Option.mem_unique hcs hcs'
    exact hne'
  exact hsub ((codes_iff hget hgiven hcodes').1 hx cs' hcs')

/-- A set of days meets a larger mask when it meets a part of it. -/
theorem NarrowsDays.meets {wide narrow : Weekdays} (h : NarrowsDays wide narrow) {day : UInt8}
    (hday : ∀ mask ∈ narrow, day &&& mask ≠ 0) : ∀ mask ∈ wide, day &&& mask ≠ 0 := by
  intro mask hmask hzero
  obtain ⟨mask', hmask', -, hsub⟩ := h mask hmask
  refine hday mask' hmask' ?_
  rw [← hsub, UInt8.and_comm mask', ← UInt8.and_assoc, hzero, UInt8.zero_and]

/-- **The time limits.** The subtraction from the clock keeps their order unless it wraps for one of them only. -/
theorem timelimit_iff (hn : ∀ v ∈ p.timelimit, ∃ v' ∈ p'.timelimit, v' ≤ v)
    (hpass : ∀ v ∈ p'.timelimit, clock - v ≤ d.timestamp) :
    (∀ v ∈ p.timelimit, clock - v ≤ d.timestamp) ↔ ¬ LimitWraps clock d.timestamp p p' := by
  have hsub (v : UInt32) : clock - v ≤ d.timestamp ↔
      (2 ^ 32 - v.toNat + clock.toNat) % 2 ^ 32 ≤ d.timestamp.toNat := by
    rw [UInt32.le_iff_toNat_le, UInt32.toNat_sub]
  have hclock := clock.toNat_lt
  have hstamp := d.timestamp.toNat_lt
  constructor
  · rintro h ⟨v, hv, v', -, -, hwrap, hold⟩
    have hle := (hsub v).1 (h v hv)
    have hlimit := v.toNat_lt
    omega
  · intro h v hv
    obtain ⟨v', hv', hle⟩ := hn v hv
    rw [UInt32.le_iff_toNat_le] at hle
    have hnarrow := (hsub v').1 (hpass v' hv')
    have hlimit := v.toNat_lt
    rw [hsub]
    by_contra hlt
    refine h ⟨v, hv, v', hv', ?_⟩
    omega

/-- **All other filters are monotone.** A record that passes the narrower query passes the wider one, but for its
time limit. -/
theorem Narrows.passes_iff {codes codes' : List UInt32} {countries countries' : List UInt8} (hn : Narrows p p')
    (hok : checkParams p = .ok (codes, countries)) (hok' : checkParams p' = .ok (codes', countries'))
    (hpass : Passes clock m p' codes' countries' d) :
    Passes clock m p codes countries d ↔ ¬ LimitWraps clock d.timestamp p p' := by
  obtain ⟨hcodes, hcountries, -, -, hstay, -⟩ := checkParams_ok.1 hok
  obtain ⟨hcodes', hcountries', -, -, hstay', -⟩ := checkParams_ok.1 hok'
  rw [← timelimit_iff hn.timelimit hpass.timelimit]
  refine ⟨fun h => h.timelimit, fun htime => ?_⟩
  -- the bounds that are given are compared one by one
  have hdep' := (between_dates p'.departureDateFrom p'.departureDateTo d.departureDate).1 hpass.departure
  have hret' := (between_dates p'.returnDateFrom p'.returnDateTo d.returnDate).1 hpass.returns
  have hdays' := (between_stays p'.stayFrom p'.stayTo d.stayDays).1 hpass.stay
  have hdep : (∀ e ∈ p.departureDateFrom, e.code ≤ d.departureDate) ∧
      ∀ e ∈ p.departureDateTo, d.departureDate ≤ e.code := by
    refine ⟨fun e he => ?_, fun e he => ?_⟩
    · obtain ⟨e', he', hle⟩ := hn.departureFrom e he
      exact UInt32.le_trans hle (hdep'.1 e' he')
    · obtain ⟨e', he', hle⟩ := hn.departureTo e he
      exact UInt32.le_trans (hdep'.2 e' he') hle
  have hret : (∀ e ∈ p.returnDateFrom, e.code ≤ d.returnDate) ∧ ∀ e ∈ p.returnDateTo, d.returnDate ≤ e.code := by
    refine ⟨fun e he => ?_, fun e he => ?_⟩
    · obtain ⟨e', he', hle⟩ := hn.returnFrom e he
      exact UInt32.le_trans hle (hret'.1 e' he')
    · obtain ⟨e', he', hle⟩ := hn.returnTo e he
      exact UInt32.le_trans (hret'.2 e' he') hle
  have hbound := checkStay_bounded hstay
  have hbound' := checkStay_bounded hstay'
  have hdays : (∀ v ∈ p.stayFrom, v.toUInt8 ≤ d.stayDays) ∧ ∀ v ∈ p.stayTo, d.stayDays ≤ v.toUInt8 := by
    refine ⟨fun v hv => ?_, fun v hv => ?_⟩
    · obtain ⟨v', hv', hle⟩ := hn.stayFrom v hv
      have hlow := hdays'.1 v' hv'
      rw [UInt8.le_iff_toNat_le, toUInt8_toNat (hbound'.1 v' hv')] at hlow
      rw [UInt8.le_iff_toNat_le, toUInt8_toNat (hbound.1 v hv)]
      exact (UInt32.le_iff_toNat_le.1 hle).trans hlow
    · obtain ⟨v', hv', hle⟩ := hn.stayTo v hv
      have hhigh := hdays'.2 v' hv'
      rw [UInt8.le_iff_toNat_le, toUInt8_toNat (hbound'.2 v' hv')] at hhigh
      rw [UInt8.le_iff_toNat_le, toUInt8_toNat (hbound.2 v hv)]
      exact hhigh.trans (UInt32.le_iff_toNat_le.1 hle)
  exact {
    fresh := hpass.fresh
    origin := hn.origin ▸ hpass.origin
    timelimit := htime
    roundtrip := hn.roundtripFlights ▸ hpass.roundtrip
    destinations := hn.destinations.meets IATACode.getCode_ok hcodes hcodes' hpass.destinations
    countries := hn.countries.meets CountryCode.getCode_ok hcountries hcountries' hpass.countries
    departure := (between_dates _ _ _).2 hdep
    returns := (between_dates _ _ _).2 hret
    exact := hn.exact ▸ hpass.exact
    stay := (between_stays _ _ _).2 hdays
    direct := hn.directFlights ▸ hpass.direct
    departureWeekday := hn.dweekdays.meets hpass.departureWeekday
    returnWeekday := hn.rweekdays.meets hpass.returnWeekday }

/-- An accepted query is the one of its checks. -/
theorem buildQuery_ok {u : Uninit} {q : SearchQuery} (h : buildQuery u clock p = .ok q) :
    ∃ codes countries, checkParams p = .ok (codes, countries) ∧ q = queryOf u clock p codes countries := by
  rw [buildQuery_eq] at h
  rcases hok : checkParams p with e | ⟨codes, countries⟩
  · rw [hok] at h
    cases h
  · rw [hok] at h
    cases h
    exact ⟨codes, countries, rfl, rfl⟩

/-- **Narrowing a request adds no deal**, unless the wider time limit alone wraps around. -/
theorem narrows_forwards_iff {u u' : Uninit} {q q' : SearchQuery} (hq : buildQuery u clock p = .ok q)
    (hq' : buildQuery u' clock p' = .ok q') (hn : Narrows p p')
    (hpass : processElement { q' with minTimestamp := m } d = true) :
    processElement { q with minTimestamp := m } d = true ↔ ¬ LimitWraps clock d.timestamp p p' := by
  obtain ⟨codes, countries, hok, rfl⟩ := buildQuery_ok hq
  obtain ⟨codes', countries', hok', rfl⟩ := buildQuery_ok hq'
  rw [processElement_queryOf] at hpass ⊢
  exact hn.passes_iff hok hok' hpass

/-- A search from Saint Petersburg with a time limit. -/
def limitedRequest (limit : UInt32) : TopParams := { juneRequest with returnDateTo := none, timelimit := some limit }

theorem limitedRequest_narrows {limit limit' : UInt32} (hle : limit' ≤ limit) :
    Narrows (limitedRequest limit) (limitedRequest limit') := by
  constructor <;> simp [limitedRequest, juneRequest, NarrowsCodes, NarrowsDays, hle]

theorem narrows_forwards_june :
    processElement { queryOf clearedMemory 1465000000 (limitedRequest 172800) [] [] with minTimestamp := 1 }
        (dealRecord 0 1464999000 ⟨[], 0, 0⟩ (juneDeal none)) = true ↔
      ¬ LimitWraps 1465000000 1464999000 (limitedRequest 172800) (limitedRequest 86400) := by
  have hquery (limit : UInt32) : buildQuery clearedMemory 1465000000 (limitedRequest limit) =
      .ok (queryOf clearedMemory 1465000000 (limitedRequest limit) [] []) := rfl
  exact narrows_forwards_iff (hquery 172800) (hquery 86400) (limitedRequest_narrows (by decide)) (by decide +kernel)

/-- **A smaller time limit adds a deal.** A limit of 2000000000 seconds, which is longer than the clock is old,
rejects the deal, and a limit of a day forwards it. -/
theorem longer_limit_rejects :
    buildQuery clearedMemory 1465000000 (limitedRequest 2000000000) =
        .ok (queryOf clearedMemory 1465000000 (limitedRequest 2000000000) [] []) ∧
      buildQuery clearedMemory 1465000000 (limitedRequest 86400) =
        .ok (queryOf clearedMemory 1465000000 (limitedRequest 86400) [] []) ∧
      Narrows (limitedRequest 2000000000) (limitedRequest 86400) ∧
      processElement { queryOf clearedMemory 1465000000 (limitedRequest 86400) [] [] with minTimestamp := 1 }
        (dealRecord 0 1464999000 ⟨[], 0, 0⟩ (juneDeal none)) = true ∧
      ¬ processElement { queryOf clearedMemory 1465000000 (limitedRequest 2000000000) [] [] with minTimestamp := 1 }
        (dealRecord 0 1464999000 ⟨[], 0, 0⟩ (juneDeal none)) = true :=
  ⟨rfl, rfl, limitedRequest_narrows (by decide), by decide +kernel, by decide +kernel⟩

end DealsServer
