import DealsServer.Proof.BuildQuery
import DealsServer.Proof.Cheapest

/-!
# Searches and uninitialised memory

* `searchFor_eq_iff`: the outcome of a search is the same in all memories exactly if the search is
  `Determined`: it is not by day, or the setters reject it, or both date intervals are given, or the one
  that is given settles what `CheapestByDay` reads of the other.
* `dates_missing`: a search by day without dates is answered or rejected as the memory happens to be.

`CheapestByDay::checkInputParams` and `pre_search` read the durations of both intervals without looking at
`filter_departure_date` and `filter_return_date`.
-/

namespace DealsServer

/-- No record that the table delivers passes the filters of the request. -/
def NoMatch (w : SearchWorld) (p : TopParams) : Prop :=
  ∀ records, w.records = .ok records → ∀ c, checkParams p = .ok c → ∀ d ∈ records,
    ¬ Passes w.lifetimeClock (minTimestamp w.globalExpireAt w.clock) p c.1 c.2 d

/-- The one interval given, of this duration, settles the search. -/
def OneInterval (w : SearchWorld) (p : TopParams) (duration : UInt32) (departure : Prop) : Prop :=
  duration ≠ 0 ∧ (duration > 367 ∨ p.allCombinations.getD false = false ∧
    (p.departureOrReturnDate.isSome = true ∨ departure ∧ 2 ≤ duration ∨ NoMatch w p))

/-- The duration of the departure interval of the request. -/
def TopParams.departureDuration (p : TopParams) : UInt32 :=
  (SearchQuery.dateInterval p.departureDateFrom p.departureDateTo).duration

/-- The duration of the return interval of the request. -/
def TopParams.returnDuration (p : TopParams) : UInt32 :=
  (SearchQuery.dateInterval p.returnDateFrom p.returnDateTo).duration

/-- The search reads no uninitialised member that its outcome depends on. -/
def Determined (agg : Aggregation) (w : SearchWorld) (p : TopParams) : Prop :=
  agg ≠ .cheapestByDay ∨ (∃ e, checkParams p = .error e) ∨
    (p.departureGiven = true ∧ p.returnGiven = true) ∨
    (p.departureGiven = true ∧ p.returnGiven = false ∧ OneInterval w p p.departureDuration True) ∨
    (p.departureGiven = false ∧ p.returnGiven = true ∧ OneInterval w p p.returnDuration False)

/-! ## The plan of a search by day -/

/-- The limit of the result, and whether it is grouped by return date. -/
def dayLimit (q : SearchQuery) (dep ret : UInt32) : UInt16 × Bool :=
  if q.filterExactDate then
    (if q.departureReturnMaxDuration ≠ 0 then q.departureReturnMaxDuration.toUInt16 else q.filterResultLimit,
      false)
  else if q.filterAllCombinations then ((dep * ret).toUInt16, false)
  else if dep ≤ 1 then (if ret ≠ 0 then ret.toUInt16 else q.filterResultLimit, true)
  else (dep.toUInt16, false)

/-- `pre_search` of a search by day, were the durations `dep` and `ret`. -/
def dayPlan (q : SearchQuery) (dep ret : UInt32) : Except Thrown (UInt16 × Bool) :=
  if dep = 0 ∧ ret = 0 then raise (str "Departure or return dates interval must be specified\n")
  else if (q.filterDepartureDate ∧ dep > 367) ∨ (q.filterReturnDate ∧ ret > 367) then
    raise (str "Date interval to large. 365 days is maximum\n")
  else if q.filterAllCombinations then
    if dep = 0 ∨ ret = 0 then
      raise (str "Departure and return dates must be specified, if all_combination flag is set\n")
    else if dep > 11 ∨ ret > 11 then
      raise (str "Departure and return dates interval must be <= 10, if all_combination flag is set\n")
    else .ok (dayLimit q dep ret)
  else .ok (dayLimit q dep ret)

theorem dayPreSearch_eq (q : SearchQuery) :
    dayPreSearch { q with groupByReturnDate := false } =
      (dayPlan q q.departureDateValues.duration q.returnDateValues.duration).map fun plan =>
        { q with filterResultLimit := plan.1, groupByReturnDate := plan.2 } := by
  simp only [dayPreSearch, checkInputParams, dayPlan, dayLimit, bind, Except.bind, pure, Except.pure]
  split_ifs <;> rfl

/-- What a search by day finds, before it is cut to the limit. -/
def dayFound (w : SearchWorld) (q : SearchQuery) (group : Bool) : Except Thrown (List DealInfo) :=
  let q : DayQuery := { q with
    minTimestamp := minTimestamp w.globalExpireAt w.clock, groupByReturnDate := group }
  (w.records.mapError StorageFault.thrown).map fun records =>
    Aggregation.cheapestByDay.postSearch q w.order
      ((records.filter (processElement q.toSearchQuery)).foldl (Aggregation.cheapestByDay.processDeal q)
        Groups.empty)

/-- The payloads of the deals. -/
def payloads (w : SearchWorld) (deals : List DealInfo) : Except Thrown (List Bytes) :=
  deals.mapM fun deal => (w.payload deal).mapError StorageFault.thrown

/-- The outcome of a search by day with this plan. -/
def dayOutcome (w : SearchWorld) (q : SearchQuery) (plan : UInt16 × Bool) : Except Thrown (List Bytes) :=
  dayFound w q plan.2 >>= fun deals => payloads w (deals.take plan.1.toNat)

theorem execute_day (w : SearchWorld) (q : SearchQuery) :
    (execute .cheapestByDay w q >>= payloads w) =
      dayPlan q q.departureDateValues.duration q.returnDateValues.duration >>= dayOutcome w q := by
  have hpre : Aggregation.preSearch { q with groupByReturnDate := false } .cheapestByDay =
      (dayPlan q q.departureDateValues.duration q.returnDateValues.duration).map fun plan =>
        { q with filterResultLimit := plan.1, groupByReturnDate := plan.2 } := dayPreSearch_eq q
  unfold execute
  rw [hpre]
  rcases dayPlan q q.departureDateValues.duration q.returnDateValues.duration with e | plan
  · rfl
  · simp only [Except.map, bind, Except.bind, dayOutcome, dayFound]
    rcases w.records with e | records
    · rfl
    · rfl

/-! ## What the memory reaches -/

/-- A memory of zeros but for the two durations. -/
def memory (dep ret : UInt32) : Uninit :=
  ⟨0, ⟨0, 0, dep⟩, ⟨0, 0, ret⟩, 0, 0, false, false, 0, 0, ⟨0, 0⟩, 0⟩

variable (w : SearchWorld) (now : UInt32) (p : TopParams) (codes : List UInt32) (countries : List UInt8)

theorem processElement_memory (u : Uninit) (m : UInt32) :
    processElement { queryOf u now p codes countries with minTimestamp := m } =
      processElement { queryOf (memory 0 0) now p codes countries with minTimestamp := m } := by
  funext d
  rw [Bool.eq_iff_iff, processElement_queryOf, processElement_queryOf]

/-- The filter, the key and the order of a search do not see the memory. -/
theorem dayFound_queryOf (u : Uninit) (group : Bool) :
    dayFound w (queryOf u now p codes countries) group =
      dayFound w (queryOf (memory 0 0) now p codes countries) group := by
  set m := minTimestamp w.globalExpireAt w.clock with hm
  have hkey : getDateToGroup { queryOf u now p codes countries with
        minTimestamp := m, groupByReturnDate := group } =
      getDateToGroup { queryOf (memory 0 0) now p codes countries with
        minTimestamp := m, groupByReturnDate := group } := by
    funext d
    rcases he : p.departureOrReturnDate with _ | e <;> simp [getDateToGroup, queryOf, he]
  have hlt : dayLt { queryOf u now p codes countries with
        minTimestamp := m, groupByReturnDate := group } =
      dayLt { queryOf (memory 0 0) now p codes countries with
        minTimestamp := m, groupByReturnDate := group } := by
    funext a b
    rcases he : p.departureOrReturnDate with _ | e <;> simp [dayLt, queryOf, he]
  have hdeal : ∀ q : DayQuery, Aggregation.cheapestByDay.processDeal q = processDealBy (getDateToGroup q) :=
    fun _ => rfl
  have hpost : ∀ q : DayQuery, Aggregation.cheapestByDay.postSearch q = postSearchBy (dayLt q) := fun _ => rfl
  simp only [dayFound, hdeal, hpost, ← hm]
  rw [hkey, hlt, processElement_memory]

/-- The departure duration that a search in the memory `u` reads. -/
def readDeparture (u : Uninit) : UInt32 :=
  if p.departureGiven then p.departureDuration else u.departureDateValues.duration

/-- The return duration that a search in the memory `u` reads. -/
def readReturn (u : Uninit) : UInt32 :=
  if p.returnGiven then p.returnDuration else u.returnDateValues.duration

/-- **A search by day** sees of the memory the two durations that `pre_search` reads. -/
theorem searchFor_day (u : Uninit) :
    searchFor .cheapestByDay w u p = checkParams p >>= fun c =>
      let q := queryOf (memory 0 0) w.lifetimeClock p c.1 c.2
      dayPlan q (readDeparture p u) (readReturn p u) >>= dayOutcome w q := by
  unfold searchFor
  rw [buildQuery_eq]
  rcases checkParams p with e | c
  · rfl
  have hdep : (queryOf u w.lifetimeClock p c.1 c.2).departureDateValues.duration = readDeparture p u := by
    simp only [queryOf, readDeparture, TopParams.departureDuration]
    split_ifs <;> rfl
  have hret : (queryOf u w.lifetimeClock p c.1 c.2).returnDateValues.duration = readReturn p u := by
    simp only [queryOf, readReturn, TopParams.returnDuration]
    split_ifs <;> rfl
  have hday := execute_day w (queryOf u w.lifetimeClock p c.1 c.2)
  have hplan : ∀ dep ret, dayPlan (queryOf u w.lifetimeClock p c.1 c.2) dep ret =
      dayPlan (queryOf (memory 0 0) w.lifetimeClock p c.1 c.2) dep ret := fun _ _ => rfl
  have houtcome : dayOutcome w (queryOf u w.lifetimeClock p c.1 c.2) =
      dayOutcome w (queryOf (memory 0 0) w.lifetimeClock p c.1 c.2) := by
    funext plan
    simp only [dayOutcome]
    rw [dayFound_queryOf]
  rw [hdep, hret, hplan, houtcome] at hday
  exact hday

/-- What a search finds once `pre_search` has passed. -/
def found (agg : Aggregation) (q : DayQuery) : Except Thrown (List DealInfo) :=
  let q := { q with minTimestamp := minTimestamp w.globalExpireAt w.clock }
  (w.records.mapError StorageFault.thrown).map fun records =>
    (agg.postSearch q w.order ((records.filter (processElement q.toSearchQuery)).foldl (agg.processDeal q)
      Groups.empty)).take q.filterResultLimit.toNat

theorem execute_eq (agg : Aggregation) (q : SearchQuery) :
    execute agg w q = agg.preSearch { q with groupByReturnDate := false } >>= found w agg := by
  unfold execute
  rcases agg.preSearch { q with groupByReturnDate := false } with e | q
  · rfl
  · simp only [bind, Except.bind, found]
    rcases w.records with e | records <;> rfl

theorem found_memory {agg : Aggregation} (hagg : agg ≠ .cheapestByDay) (u u' : Uninit) (limit : UInt16) :
    found w agg { queryOf u now p codes countries with
        filterResultLimit := limit, groupByReturnDate := false } =
      found w agg { queryOf u' now p codes countries with
        filterResultLimit := limit, groupByReturnDate := false } := by
  have hagree : ∀ q q' : DayQuery, agg.processDeal q = agg.processDeal q' ∧
      agg.postSearch q w.order = agg.postSearch q' w.order := by
    intro q q'
    cases agg
    · exact ⟨rfl, rfl⟩
    · exact ⟨rfl, rfl⟩
    · exact absurd rfl hagg
  have hfilter : ∀ m, processElement { queryOf u now p codes countries with
        filterResultLimit := limit, minTimestamp := m } =
      processElement { queryOf u' now p codes countries with
        filterResultLimit := limit, minTimestamp := m } := fun m =>
    (processElement_memory now p codes countries u m).trans
      (processElement_memory now p codes countries u' m).symm
  simp only [found]
  rw [hfilter, (hagree _ _).1, (hagree _ _).2]

theorem preSearch_country (q : SearchQuery) :
    Aggregation.preSearch { q with groupByReturnDate := false } .cheapestByCountry =
      if q.filterAllCombinations then
        raise (str "all_combinations flag not implemented for by_country aggregation\n")
      else .ok { q with
        filterResultLimit := if q.filterDestinationCountry then q.destinationCountrySet.length.toUInt16
          else q.filterResultLimit
        groupByReturnDate := false } := by
  simp only [Aggregation.preSearch]
  split_ifs <;> rfl

/-- A search that is not by day does not see the memory. -/
theorem searchFor_not_day {agg : Aggregation} (hagg : agg ≠ .cheapestByDay) (u u' : Uninit) :
    searchFor agg w u p = searchFor agg w u' p := by
  unfold searchFor
  rw [buildQuery_eq, buildQuery_eq]
  rcases checkParams p with e | c
  · rfl
  have hpre : ∃ limit e, ∀ u, agg.preSearch { queryOf u w.lifetimeClock p c.1 c.2 with
        groupByReturnDate := false } =
      if p.allCombinations.getD false then .error e else
        .ok { queryOf u w.lifetimeClock p c.1 c.2 with
          filterResultLimit := limit, groupByReturnDate := false } := by
    cases agg
    · exact ⟨_, _, fun u => rfl⟩
    · exact ⟨if (!c.2.isEmpty) then c.2.length.toUInt16 else (p.dealsLimit.map (·.toUInt16)).getD 20,
        .error ⟨str "all_combinations flag not implemented for by_country aggregation\n", .badParameter⟩,
        fun u => preSearch_country _⟩
    · exact absurd rfl hagg
  obtain ⟨limit, e, hpre⟩ := hpre
  simp only [Except.map, bind, Except.bind, execute_eq]
  rw [hpre u, hpre u']
  split_ifs
  · rfl
  · have hfound := found_memory w w.lifetimeClock p c.1 c.2 hagg u u' limit
    dsimp only at hfound ⊢
    rw [hfound]

/-! ## Outcomes -/

theorem mapM_error {α β ε : Type} (f : α → Except ε β) (xs : List α) {e : ε} (h : xs.mapM f = .error e) :
    ∃ x ∈ xs, f x = .error e := by
  induction xs with
  | nil => simp [pure, Except.pure] at h
  | cons x xs ih =>
    rw [List.mapM_cons] at h
    rcases hx : f x with e' | y
    · rw [hx] at h
      exact ⟨x, List.mem_cons_self, by rw [hx]; simpa [bind, Except.bind] using h⟩
    · rw [hx] at h
      rcases hxs : xs.mapM f with e' | ys
      · rw [hxs] at h
        obtain ⟨z, hz, hfz⟩ := ih (hxs.trans h)
        exact ⟨z, List.mem_cons_of_mem x hz, hfz⟩
      · rw [hxs] at h
        simp [bind, Except.bind, pure, Except.pure] at h

theorem mapM_cons_ne_nil {α β ε : Type} (f : α → Except ε β) (x : α) (xs : List α) :
    (x :: xs).mapM f ≠ .ok [] := by
  rw [List.mapM_cons]
  rcases f x with e | y
  · simp [bind, Except.bind]
  · rcases xs.mapM f with e | ys <;> simp [bind, Except.bind, pure, Except.pure]

/-- A fault of the storage is no rejection of the request. -/
theorem thrown_ne (fault : StorageFault) (message : Bytes) :
    fault.thrown ≠ .error { message := message } := by
  cases fault <;> simp [StorageFault.thrown]

theorem dayOutcome_ne_raise (q : SearchQuery) (plan : UInt16 × Bool) (message : Bytes) :
    dayOutcome w q plan ≠ raise message := by
  intro h
  unfold dayOutcome dayFound at h
  rcases hrec : w.records with fault | records
  · rw [hrec] at h
    exact thrown_ne fault message (Except.error.inj h)
  · rw [hrec] at h
    obtain ⟨d, -, hd⟩ := mapM_error _ _ h
    rcases hpay : w.payload d with fault | data
    · rw [hpay] at hd
      exact thrown_ne fault message (Except.error.inj hd)
    · rw [hpay] at hd
      cases hd

/-- The records that pass the filters of a query. -/
def passing (q : SearchQuery) (records : List DealInfo) : List DealInfo :=
  records.filter (processElement { q with minTimestamp := minTimestamp w.globalExpireAt w.clock })

theorem dayFound_eq_nil {q : SearchQuery} {records : List DealInfo} (hrec : w.records = .ok records)
    (group : Bool) :
    ∃ deals, dayFound w q group = .ok deals ∧ (deals = [] ↔ passing w q records = []) := by
  refine ⟨_, by rw [dayFound, hrec]; rfl, ?_⟩
  exact answer_eq_nil .cheapestByDay _ w.orderPerm (passing w q records)

variable {w p}

theorem passing_eq_nil {c : List UInt32 × List UInt8} {records : List DealInfo} :
    passing w (queryOf (memory 0 0) w.lifetimeClock p c.1 c.2) records = [] ↔
      ∀ d ∈ records, ¬ Passes w.lifetimeClock (minTimestamp w.globalExpireAt w.clock) p c.1 c.2 d := by
  unfold passing
  rw [List.filter_eq_nil_iff]
  refine forall₂_congr fun d hd => not_congr ?_
  exact processElement_queryOf (memory 0 0) w.lifetimeClock _ p c.1 c.2 d

theorem dayOutcome_no_match (hno : NoMatch w p) {c : List UInt32 × List UInt8} (hc : checkParams p = .ok c)
    (plan plan' : UInt16 × Bool) :
    dayOutcome w (queryOf (memory 0 0) w.lifetimeClock p c.1 c.2) plan =
      dayOutcome w (queryOf (memory 0 0) w.lifetimeClock p c.1 c.2) plan' := by
  rcases hrec : w.records with fault | records
  · simp only [dayOutcome, dayFound, hrec]
    rfl
  · have hnil := passing_eq_nil.2 (hno records hrec c hc)
    have hempty : ∀ plan, dayOutcome w (queryOf (memory 0 0) w.lifetimeClock p c.1 c.2) plan = .ok [] := by
      intro plan
      obtain ⟨deals, hfound, hdeals⟩ := dayFound_eq_nil w hrec plan.2
      rw [dayOutcome, hfound, hdeals.2 hnil]
      simp [bind, Except.bind, payloads, pure, Except.pure]
    rw [hempty plan, hempty plan']

theorem dayOutcome_match (hmatch : ¬ NoMatch w p) {c : List UInt32 × List UInt8}
    (hc : checkParams p = .ok c) {limit : UInt16} (hlimit : limit ≠ 0) (group group' : Bool) :
    dayOutcome w (queryOf (memory 0 0) w.lifetimeClock p c.1 c.2) (limit, group) ≠
      dayOutcome w (queryOf (memory 0 0) w.lifetimeClock p c.1 c.2) (0, group') := by
  unfold NoMatch at hmatch
  push Not at hmatch
  obtain ⟨records, hrec, c', hc', d, hd, hpass⟩ := hmatch
  obtain rfl : c = c' := Except.ok.inj (hc.symm.trans hc')
  have hsome : ¬ passing w (queryOf (memory 0 0) w.lifetimeClock p c.1 c.2) records = [] := fun hnil =>
    passing_eq_nil.1 hnil d hd hpass
  obtain ⟨deals, hfound, hdeals⟩ := dayFound_eq_nil w
    (q := queryOf (memory 0 0) w.lifetimeClock p c.1 c.2) hrec group
  obtain ⟨deals', hfound', -⟩ := dayFound_eq_nil w
    (q := queryOf (memory 0 0) w.lifetimeClock p c.1 c.2) hrec group'
  have hzero : dayOutcome w (queryOf (memory 0 0) w.lifetimeClock p c.1 c.2) (0, group') = .ok [] := by
    rw [dayOutcome, hfound']
    simp [bind, Except.bind, payloads, pure, Except.pure]
  rw [hzero, dayOutcome, hfound]
  have hpos : 0 < limit.toNat := Nat.pos_of_ne_zero fun h => hlimit (UInt16.toNat_inj.1 h)
  obtain ⟨first, rest, hcons⟩ := List.exists_cons_of_ne_nil (mt hdeals.1 hsome)
  obtain ⟨n, hn⟩ := Nat.exists_eq_succ_of_ne_zero (Nat.pos_iff_ne_zero.1 hpos)
  simp only [hcons, hn, Nat.succ_eq_add_one, List.take_succ_cons, bind, Except.bind]
  exact mapM_cons_ne_nil _ _ _

theorem raise_ne {α : Type} {a b : Bytes} (h : a ≠ b) : (raise a : Except Thrown α) ≠ raise b := by
  simpa [raise] using h

theorem toUInt16_ne_zero {v : UInt32} (h0 : v ≠ 0) (h : v ≤ 367) : v.toUInt16 ≠ 0 := by
  intro hzero
  have hle := UInt32.le_iff_toNat_le.1 h
  have hnat : v.toNat % 2 ^ 16 = 0 := by
    rw [← UInt32.toNat_toUInt16, hzero]
    rfl
  refine h0 (UInt32.toNat_inj.1 ?_)
  have h367 : (367 : UInt32).toNat = 367 := rfl
  have hz : (0 : UInt32).toNat = 0 := rfl
  omega

theorem limit_ne_zero {c : List UInt32 × List UInt8} (hc : checkParams p = .ok c) :
    (p.dealsLimit.map (·.toUInt16)).getD 20 ≠ 0 := by
  obtain ⟨-, -, -, -, -, hlimit⟩ := checkParams_ok.1 hc
  rcases hl : p.dealsLimit with _ | v
  · decide
  · rw [hl] at hlimit
    by_cases h : v > 0 ∧ v ≤ 367
    · exact toUInt16_ne_zero (fun h0 => UInt32.lt_irrefl 0 (h0 ▸ h.1)) h.2
    · have hbad : (some v).any (fun v => !(v > 0 ∧ v ≤ 367)) = true := by
        rw [Option.any_some, decide_eq_false h]
        rfl
      rw [checkLimit, if_pos hbad] at hlimit
      cases hlimit

/-! ## One interval -/

section OnePlan

variable {q : SearchQuery} {dep ret : UInt32}

/-- Without `all_combinations` a plan in range is made. -/
theorem dayPlan_ok (hdur : ¬ (dep = 0 ∧ ret = 0))
    (hrange : ¬ ((q.filterDepartureDate = true ∧ dep > 367) ∨ (q.filterReturnDate = true ∧ ret > 367)))
    (hall : q.filterAllCombinations = false) : dayPlan q dep ret = .ok (dayLimit q dep ret) := by
  simp [dayPlan, hdur, hrange, hall]

/-- With `all_combinations` both durations are needed. -/
theorem dayPlan_both (hdur : ¬ (dep = 0 ∧ ret = 0))
    (hrange : ¬ ((q.filterDepartureDate = true ∧ dep > 367) ∨ (q.filterReturnDate = true ∧ ret > 367)))
    (hall : q.filterAllCombinations = true) (hzero : dep = 0 ∨ ret = 0) :
    dayPlan q dep ret =
      raise (str "Departure and return dates must be specified, if all_combination flag is set\n") := by
  simp [dayPlan, hdur, hrange, hall, hzero]

theorem dayPlan_none : dayPlan q 0 0 =
    raise (str "Departure or return dates interval must be specified\n") := by
  simp [dayPlan]

/-- The outcome of a search by day that reads these durations. -/
def dayRun (w : SearchWorld) (q : SearchQuery) (dep ret : UInt32) : Except Thrown (List Bytes) :=
  dayPlan q dep ret >>= dayOutcome w q

theorem dayRun_ok {plan : UInt16 × Bool} (h : dayPlan q dep ret = .ok plan) :
    dayRun w q dep ret = dayOutcome w q plan := by
  rw [dayRun, h]
  rfl

theorem dayRun_raise {message : Bytes} (h : dayPlan q dep ret = raise message) :
    dayRun w q dep ret = raise message := by
  rw [dayRun, h]
  rfl

/-- With `all_combinations` and a zero duration the request is rejected; with both it is searched, or
rejected for another reason. -/
theorem dayRun_both_ne {dep' ret' : UInt32} (hzero : dayPlan q dep ret =
      raise (str "Departure and return dates must be specified, if all_combination flag is set\n"))
    (hboth : dep' ≠ 0 ∧ ret' ≠ 0)
    (hrange : ¬ ((q.filterDepartureDate = true ∧ dep' > 367) ∨ (q.filterReturnDate = true ∧ ret' > 367)))
    (hall : q.filterAllCombinations = true) : dayRun w q dep ret ≠ dayRun w q dep' ret' := by
  rw [dayRun_raise hzero]
  by_cases hbig : dep' > 11 ∨ ret' > 11
  · have hplan : dayPlan q dep' ret' =
        raise (str "Departure and return dates interval must be <= 10, if all_combination flag is set\n") := by
      simp [dayPlan, hboth.1, hboth.2, hrange, hall, hbig]
    rw [dayRun_raise hplan]
    exact raise_ne (by decide)
  · have hplan : dayPlan q dep' ret' = .ok (dayLimit q dep' ret') := by
      simp [dayPlan, hboth.1, hboth.2, hrange, hall, hbig]
    rw [dayRun_ok hplan]
    exact (dayOutcome_ne_raise w q _ _).symm

end OnePlan

/-- With neither interval given, two zero durations are rejected and others are not. -/
theorem dayRun_neither (w : SearchWorld) {q : SearchQuery} (hdep : q.filterDepartureDate = false)
    (hret : q.filterReturnDate = false) : dayRun w q 0 0 ≠ dayRun w q 1 1 := by
  have hplan : dayPlan q 1 1 = .ok (dayLimit q 1 1) := by
    cases hall : q.filterAllCombinations
    · exact dayPlan_ok (by decide) (by simp [hdep, hret]) hall
    · have h11 : ¬ (1 : UInt32) > 11 := by decide
      simp [dayPlan, hdep, hret, hall, h11]
  rw [dayRun_raise dayPlan_none, dayRun_ok hplan]
  exact (dayOutcome_ne_raise w q _ _).symm

/-- Two zero durations are rejected otherwise than one that is zero and one that is not. -/
theorem dayRun_none_ne {w : SearchWorld} {q : SearchQuery} {dep ret : UInt32} (hsome : ¬ (dep = 0 ∧ ret = 0))
    (hzero : dep = 0 ∨ ret = 0)
    (hrange : ¬ ((q.filterDepartureDate = true ∧ dep > 367) ∨ (q.filterReturnDate = true ∧ ret > 367))) :
    dayRun w q 0 0 ≠ dayRun w q dep ret := by
  rw [dayRun_raise dayPlan_none]
  cases hall : q.filterAllCombinations
  · rw [dayRun_ok (dayPlan_ok hsome hrange hall)]
    exact (dayOutcome_ne_raise w q _ _).symm
  · rw [dayRun_raise (dayPlan_both hsome hrange hall hzero)]
    exact raise_ne (by decide)

/-- If the return duration does not matter, the departure interval settles the search. -/
theorem departure_settles {c : List UInt32 × List UInt8} (hc : checkParams p = .ok c)
    (hdep : p.departureGiven = true) (hret : p.returnGiven = false)
    (hsame : ∀ ret ret', dayRun w (queryOf (memory 0 0) w.lifetimeClock p c.1 c.2) p.departureDuration ret =
      dayRun w (queryOf (memory 0 0) w.lifetimeClock p c.1 c.2) p.departureDuration ret') :
    OneInterval w p p.departureDuration True := by
  set q := queryOf (memory 0 0) w.lifetimeClock p c.1 c.2 with hq
  set D := p.departureDuration
  have hfd : q.filterDepartureDate = true := hdep
  have hfr : q.filterReturnDate = false := hret
  have hrange : ∀ ret, ¬ D > 367 → ¬ ((q.filterDepartureDate = true ∧ D > 367) ∨
      (q.filterReturnDate = true ∧ ret > 367)) := by
    intro ret hD
    simp [hfr, hD]
  have hne : D ≠ 0 := by
    intro h0
    -- a duration of 0 would leave the search to the return duration
    have hzero := hsame 0 1
    rw [h0] at hzero
    exact dayRun_none_ne (by decide) (.inl rfl) (by simp [hfr]) hzero
  refine ⟨hne, ?_⟩
  by_contra hnot
  push Not at hnot
  obtain ⟨hbig, hnot⟩ := hnot
  cases hall : q.filterAllCombinations
  · obtain ⟨hexact, htwo, hmatch⟩ := hnot hall
    have hfe : q.filterExactDate = false := by simpa [hq, queryOf] using hexact
    have hone : D ≤ 1 := by
      have := UInt32.lt_iff_toNat_lt.1 (UInt32.not_le.1 (htwo trivial))
      rw [UInt32.le_iff_toNat_le]
      exact Nat.lt_succ_iff.1 this
    -- the return durations 0 and 65536 give the default limit and no deal at all
    have hdefault : dayLimit q D 0 = (q.filterResultLimit, true) := by simp [dayLimit, hfe, hall, hone]
    have hcut : dayLimit q D 65536 = (0, true) := by
      simp only [dayLimit, hfe, hall, hone, Bool.false_eq_true, if_false, if_true]
      rfl
    refine absurd (hsame 0 65536) ?_
    rw [dayRun_ok (dayPlan_ok (by simp [hne]) (hrange 0 hbig) hall),
      dayRun_ok (dayPlan_ok (by simp [hne]) (hrange 65536 hbig) hall), hdefault, hcut]
    exact dayOutcome_match hmatch hc (limit_ne_zero hc) true true
  · exact dayRun_both_ne (dayPlan_both (by simp [hne]) (hrange 0 hbig) hall (.inr rfl))
      ⟨hne, by decide⟩ (hrange 1 hbig) hall (hsame 0 1)

/-- If the departure duration does not matter, the return interval settles the search. -/
theorem return_settles {c : List UInt32 × List UInt8} (hc : checkParams p = .ok c)
    (hdep : p.departureGiven = false) (hret : p.returnGiven = true)
    (hsame : ∀ dep dep', dayRun w (queryOf (memory 0 0) w.lifetimeClock p c.1 c.2) dep p.returnDuration =
      dayRun w (queryOf (memory 0 0) w.lifetimeClock p c.1 c.2) dep' p.returnDuration) :
    OneInterval w p p.returnDuration False := by
  set q := queryOf (memory 0 0) w.lifetimeClock p c.1 c.2 with hq
  set R := p.returnDuration
  have hfd : q.filterDepartureDate = false := hdep
  have hfr : q.filterReturnDate = true := hret
  have hrange : ∀ dep, ¬ R > 367 → ¬ ((q.filterDepartureDate = true ∧ dep > 367) ∨
      (q.filterReturnDate = true ∧ R > 367)) := by
    intro dep hR
    simp [hfd, hR]
  have hne : R ≠ 0 := by
    intro h0
    have hzero := hsame 0 1
    rw [h0] at hzero
    exact dayRun_none_ne (by decide) (.inr rfl) (by simp [hfd]) hzero
  refine ⟨hne, ?_⟩
  by_contra hnot
  push Not at hnot
  obtain ⟨hbig, hnot⟩ := hnot
  cases hall : q.filterAllCombinations
  · obtain ⟨hexact, -, hmatch⟩ := hnot hall
    have hfe : q.filterExactDate = false := by simpa [hq, queryOf] using hexact
    have hdays : dayLimit q 0 R = (R.toUInt16, true) := by simp [dayLimit, hfe, hall, hne]
    -- a departure duration of 65536 is cut to the limit 0
    have hcut : dayLimit q 65536 R = (0, false) := by
      simp only [dayLimit, hfe, hall, Bool.false_eq_true, if_false]
      rfl
    refine absurd (hsame 0 65536) ?_
    rw [dayRun_ok (dayPlan_ok (by simp [hne]) (hrange 0 hbig) hall),
      dayRun_ok (dayPlan_ok (by simp [hne]) (hrange 65536 hbig) hall), hdays, hcut]
    exact dayOutcome_match hmatch hc (toUInt16_ne_zero hne (UInt32.not_lt.1 hbig)) true false
  · exact dayRun_both_ne (dayPlan_both (by simp [hne]) (hrange 0 hbig) hall (.inl rfl))
      ⟨by decide, hne⟩ (hrange 1 hbig) hall (hsame 0 1)

/-- A departure interval that settles the search makes the return duration irrelevant. -/
theorem dayRun_departure {c : List UInt32 × List UInt8} (hc : checkParams p = .ok c)
    (hdep : p.departureGiven = true) (hret : p.returnGiven = false)
    (hone : OneInterval w p p.departureDuration True) (ret ret' : UInt32) :
    dayRun w (queryOf (memory 0 0) w.lifetimeClock p c.1 c.2) p.departureDuration ret =
      dayRun w (queryOf (memory 0 0) w.lifetimeClock p c.1 c.2) p.departureDuration ret' := by
  set q := queryOf (memory 0 0) w.lifetimeClock p c.1 c.2 with hq
  obtain ⟨hne, hrest⟩ := hone
  set D := p.departureDuration
  have hfd : q.filterDepartureDate = true := hdep
  have hfr : q.filterReturnDate = false := hret
  by_cases hbig : D > 367
  · -- a departure interval that is too long is rejected whatever the return duration is
    have hlarge : ∀ ret, dayPlan q D ret = raise (str "Date interval to large. 365 days is maximum\n") := by
      intro ret
      simp only [dayPlan, hne, hfd, hbig, false_and, if_false, and_self, true_or, if_true]
    rw [dayRun_raise (hlarge ret), dayRun_raise (hlarge ret')]
  · obtain hbig' | ⟨hcomb, hcase⟩ := hrest
    · exact absurd hbig' hbig
    have hall : q.filterAllCombinations = false := hcomb
    have hplan : ∀ ret, dayRun w q D ret = dayOutcome w q (dayLimit q D ret) := fun ret =>
      dayRun_ok (dayPlan_ok (by simp [hne]) (by simp [hfr, hbig]) hall)
    rw [hplan, hplan]
    rcases hcase with hexact | ⟨-, htwo⟩ | hno
    · have hfe : q.filterExactDate = true := hexact
      simp [dayLimit, hfe]
    · have hmany : ¬ D ≤ 1 := by
        rw [UInt32.le_iff_toNat_le] at htwo ⊢
        exact fun h => absurd (htwo.trans h) (by decide)
      simp [dayLimit, hall, hmany]
    · exact dayOutcome_no_match hno hc _ _

/-- A return interval that settles the search makes the departure duration irrelevant. -/
theorem dayRun_return {c : List UInt32 × List UInt8} (hc : checkParams p = .ok c)
    (hdep : p.departureGiven = false) (hret : p.returnGiven = true)
    (hone : OneInterval w p p.returnDuration False) (dep dep' : UInt32) :
    dayRun w (queryOf (memory 0 0) w.lifetimeClock p c.1 c.2) dep p.returnDuration =
      dayRun w (queryOf (memory 0 0) w.lifetimeClock p c.1 c.2) dep' p.returnDuration := by
  set q := queryOf (memory 0 0) w.lifetimeClock p c.1 c.2 with hq
  obtain ⟨hne, hrest⟩ := hone
  set R := p.returnDuration
  have hfd : q.filterDepartureDate = false := hdep
  have hfr : q.filterReturnDate = true := hret
  by_cases hbig : R > 367
  · have hlarge : ∀ dep, dayPlan q dep R = raise (str "Date interval to large. 365 days is maximum\n") := by
      intro dep
      simp only [dayPlan, hne, hfr, hbig, and_false, if_false, and_self, or_true, if_true]
    rw [dayRun_raise (hlarge dep), dayRun_raise (hlarge dep')]
  · obtain hbig' | ⟨hcomb, hcase⟩ := hrest
    · exact absurd hbig' hbig
    have hall : q.filterAllCombinations = false := hcomb
    have hplan : ∀ dep, dayRun w q dep R = dayOutcome w q (dayLimit q dep R) := fun dep =>
      dayRun_ok (dayPlan_ok (by simp [hne]) (by simp [hfd, hbig]) hall)
    rw [hplan, hplan]
    rcases hcase with hexact | ⟨hfalse, -⟩ | hno
    · have hfe : q.filterExactDate = true := hexact
      simp [dayLimit, hfe]
    · exact hfalse.elim
    · exact dayOutcome_no_match hno hc _ _

/-! ## The theorem -/

/-- A search by day in a memory with these durations. -/
theorem searchFor_memory {c : List UInt32 × List UInt8} (hc : checkParams p = .ok c) (u : Uninit) :
    searchFor .cheapestByDay w u p =
      dayRun w (queryOf (memory 0 0) w.lifetimeClock p c.1 c.2) (readDeparture p u) (readReturn p u) := by
  rw [searchFor_day, hc]
  rfl

/-- **Exactly when a search does not depend on uninitialised memory.** -/
theorem searchFor_eq_iff (agg : Aggregation) (w : SearchWorld) (p : TopParams) :
    (∀ u u' : Uninit, searchFor agg w u p = searchFor agg w u' p) ↔ Determined agg w p := by
  constructor
  · intro hsame
    by_cases hagg : agg = .cheapestByDay
    swap
    · exact .inl hagg
    subst hagg
    rcases hc : checkParams p with e | c
    · exact .inr (.inl ⟨e, hc⟩)
    set q := queryOf (memory 0 0) w.lifetimeClock p c.1 c.2 with hq
    -- only the two durations are read, and a memory can hold any two
    have hrun : ∀ u u', dayRun w q (readDeparture p u) (readReturn p u) =
        dayRun w q (readDeparture p u') (readReturn p u') := by
      intro u u'
      rw [← searchFor_memory hc, ← searchFor_memory hc]
      exact hsame u u'
    -- a duration is read from memory exactly when its dates are not given
    cases hdep : p.departureGiven <;> cases hret : p.returnGiven
    · have hcontents := hrun (memory 0 0) (memory 1 1)
      simp only [readDeparture, readReturn, hdep, hret, Bool.false_eq_true, if_false] at hcontents
      exact absurd hcontents (dayRun_neither w hdep hret)
    · refine .inr (.inr (.inr (.inr ⟨hdep, hret, return_settles hc hdep hret fun dep dep' => ?_⟩)))
      have hreads := hrun (memory dep 0) (memory dep' 0)
      simp only [readDeparture, readReturn, hdep, hret, Bool.false_eq_true, if_false, if_true] at hreads
      exact hreads
    · refine .inr (.inr (.inr (.inl ⟨hdep, hret, departure_settles hc hdep hret fun ret ret' => ?_⟩)))
      have hreads := hrun (memory 0 ret) (memory 0 ret')
      simp only [readDeparture, readReturn, hdep, hret, Bool.false_eq_true, if_false, if_true] at hreads
      exact hreads
    · exact .inr (.inr (.inl ⟨hdep, hret⟩))
  · rintro hdet u u'
    by_cases hagg : agg = .cheapestByDay
    swap
    · exact searchFor_not_day w p hagg u u'
    subst hagg
    rcases hc : checkParams p with e | c
    · rw [searchFor_day, searchFor_day, hc]
      rfl
    rw [searchFor_memory hc, searchFor_memory hc]
    obtain h | ⟨e, he⟩ | ⟨hdep, hret⟩ | ⟨hdep, hret, hone⟩ | ⟨hdep, hret, hone⟩ := hdet
    · exact absurd rfl h
    · rw [hc] at he
      cases he
    · simp [readDeparture, readReturn, hdep, hret]
    · simpa [readDeparture, readReturn, hdep, hret] using dayRun_departure hc hdep hret hone _ _
    · simpa [readDeparture, readReturn, hdep, hret] using dayRun_return hc hdep hret hone _ _

/-- A request for deals by day that gives no dates. -/
def datesMissing : ObjectMap := [⟨str "origin", str "MOW"⟩, ⟨str "group_by_date", str "true"⟩]

/-- An empty table. -/
def emptyTable : SearchWorld where
  lifetimeClock := 0
  clock := 100000
  globalExpireAt := 0
  records := .ok []
  order := id
  payload _ := .ok []
  orderPerm := List.Perm.refl

/-- The request is accepted, and then rejected or answered as the memory happens to be. -/
theorem dates_missing :
    ∃ p, TopParams.parse (fun _ => .ok []) datesMissing = .ok p ∧ p.aggregation = .cheapestByDay ∧
      ¬ ∀ u u', searchFor p.aggregation emptyTable u p = searchFor p.aggregation emptyTable u' p := by
  obtain ⟨p, hp⟩ : ∃ p, TopParams.parse (fun _ => .ok []) datesMissing = .ok p := ⟨_, rfl⟩
  have hagg : p.aggregation = .cheapestByDay := by
    obtain rfl := Except.ok.inj hp
    rfl
  have hc : checkParams p = .ok ([], []) := by
    obtain rfl := Except.ok.inj hp
    rfl
  refine ⟨p, hp, hagg, fun hsame => ?_⟩
  have hcontents := hsame (memory 0 0) (memory 1 1)
  rw [hagg, searchFor_memory hc, searchFor_memory hc] at hcontents
  obtain rfl := Except.ok.inj hp
  exact dayRun_neither emptyTable rfl rfl hcontents

end DealsServer
