import DealsServer.Proof.DateGroups

/-!
# Deals by pairs of dates

With `all_combinations` the group of a deal is `(departure_date << 18) ^ return_date`, which has no room for both
dates.

* `datesKey_inj`: dates that are close to each other are told apart.
* `datePairs_iff`: each pair of dates is listed once, in order, if both intervals are given. Otherwise `pre_search`
  reads the durations of uninitialised memory, and it depends on the deals that match.
* `pairs_unlisted`: without intervals a pair is cut off.
-/

namespace DealsServer

open Selection

/-! ## The key of two dates -/

/-- The low bits of the key are those of the return date. -/
theorem datesKey_low (dep ret : UInt32) : (dep <<< 18 ^^^ ret).toNat % 2 ^ 18 = ret.toNat % 2 ^ 18 := by
  have hshift : (dep <<< 18).toNat % 2 ^ 18 = 0 := by
    rw [UInt32.toNat_shiftLeft, Nat.shiftLeft_eq]
    show dep.toNat * 2 ^ 18 % 2 ^ 32 % 2 ^ 18 = 0
    omega
  rw [UInt32.toNat_xor, Nat.xor_mod_two_pow, hshift, Nat.zero_xor]

/-- What is left of the departure date are its low bits. -/
theorem shift_low {dep dep' : UInt32} (h : dep <<< 18 = dep' <<< 18) : dep.toNat % 2 ^ 14 = dep'.toNat % 2 ^ 14 := by
  have hnat := congrArg UInt32.toNat h
  rw [UInt32.toNat_shiftLeft, UInt32.toNat_shiftLeft, Nat.shiftLeft_eq, Nat.shiftLeft_eq] at hnat
  have hnat : dep.toNat * 2 ^ 18 % 2 ^ 32 = dep'.toNat * 2 ^ 18 % 2 ^ 32 := hnat
  omega

/-- The codes are less than `2 ^ 14` apart. -/
def Close (x y : UInt32) : Prop := x.toNat < y.toNat + 2 ^ 14 ∧ y.toNat < x.toNat + 2 ^ 14

/-- **Close dates have keys of their own.** -/
theorem datesKey_inj {dep dep' ret ret' : UInt32} (hdep : Close dep dep') (hret : Close ret ret')
    (hkey : dep <<< 18 ^^^ ret = dep' <<< 18 ^^^ ret') : dep = dep' ∧ ret = ret' := by
  have hreturns : ret = ret' := by
    have hlow := datesKey_low dep ret
    rw [hkey, datesKey_low] at hlow
    unfold Close at hret
    apply UInt32.toNat_inj.1
    omega
  subst hreturns
  have hlow := shift_low ((UInt32.xor_left_inj ret).1 hkey)
  refine ⟨?_, rfl⟩
  unfold Close at hdep
  apply UInt32.toNat_inj.1
  omega

/-- From one year to the next but one there are more than 365 days. -/
theorem year_le_of_near {d e : DateParts} (hd : d.Valid) (he : e.Valid) (hnear : e.number ≤ d.number + 365) :
    e.year.toNat ≤ d.year.toNat + 1 := by
  by_contra hfar
  have hwithin := Calendar.daysBeforeMonth_add_le hd.isDate
  have hnext := Calendar.daysBeforeYear_succ hd.isDate.year
  have hyear := Calendar.daysBeforeYear_succ (by omega : 1 ≤ d.year.toNat + 1)
  have hmono := Calendar.daysBeforeYear_mono (by omega : 1 ≤ d.year.toNat + 1 + 1)
    (by omega : d.year.toNat + 1 + 1 ≤ e.year.toNat)
  have hlength : 365 ≤ Calendar.daysInYear (d.year.toNat + 1) := by
    unfold Calendar.daysInYear
    split_ifs <;> omega
  have hday := he.isDate.day.1
  unfold DateParts.number Calendar.dayNumber at hnear
  omega

/-- Days within a year of each other have close codes. -/
theorem CalendarCode.code_lt {x y : UInt32} (hx : CalendarCode x) (hy : CalendarCode y)
    (hnear : dayOf y ≤ dayOf x + 365) : y.toNat < x.toNat + 2 ^ 14 := by
  obtain ⟨d, hd, rfl⟩ := hx
  obtain ⟨e, he, rfl⟩ := hy
  rw [dayOf_code hd, dayOf_code he] at hnear
  have hyear := year_le_of_near hd he hnear
  have hcode := hd.code_eq
  have hcode' := he.code_eq
  have hmonth := he.isDate.month.2
  have hday := he.isDate.day.2.trans (Calendar.daysInMonth_le _ _)
  omega

/-! ## The order of the answer -/

/-- The pair of dates. -/
def DealInfo.dates (x : DealInfo) : UInt32 × UInt32 := (x.departureDate, x.returnDate)

/-- The order by departure date, then return date. -/
def DealInfo.Earlier (x y : DealInfo) : Prop :=
  x.departureDate < y.departureDate ∨ x.departureDate = y.departureDate ∧ x.returnDate < y.returnDate

theorem DealInfo.earlier_iff {x y : DealInfo} :
    x.Earlier y ↔ x.departureDate.toNat < y.departureDate.toNat ∨
      x.departureDate.toNat = y.departureDate.toNat ∧ x.returnDate.toNat < y.returnDate.toNat := by
  rw [Earlier, UInt32.lt_iff_toNat_lt, UInt32.lt_iff_toNat_lt, UInt32.toNat_inj]

theorem dayLt_iff {q : DayQuery} (hexact : q.filterExactDate = false) (hgroup : q.groupByReturnDate = false)
    (x y : DealInfo) : dayLt q x y = true ↔ x.Earlier y := by
  unfold dayLt DealInfo.Earlier
  by_cases hsame : x.departureDate = y.departureDate
  · simp [hexact, hgroup, hsame, UInt32.lt_irrefl]
  · simp [hexact, hgroup, hsame]

/-- The answer is in order. -/
theorem answer_sorted {q : DayQuery} (hexact : q.filterExactDate = false) (hgroup : q.groupByReturnDate = false)
    (order : List UInt32 → List UInt32) (deals : List DealInfo) :
    (Aggregation.cheapestByDay.answer q order deals).Pairwise fun x y => ¬ y.Earlier x := by
  have hle (x y : DealInfo) : (!dayLt q y x) = true ↔ ¬ y.Earlier x := by
    rw [Bool.not_eq_true', ← Bool.not_eq_true, dayLt_iff hexact hgroup]
  refine (List.pairwise_mergeSort ?_ ?_ _).imp fun {x y} h => (hle x y).1 h
  · intro x y z hxy hyz
    replace hxy := (hle x y).1 hxy
    replace hyz := (hle y z).1 hyz
    refine (hle x z).2 ?_
    rw [DealInfo.earlier_iff] at hxy hyz ⊢
    omega
  · intro x y
    rw [Bool.or_eq_true, hle, hle, DealInfo.earlier_iff, DealInfo.earlier_iff]
    omega

/-- Deals in order, with a pair of dates each, are in strict order. -/
theorem earlier_of_sorted {deals result : List DealInfo} (hsorted : result.Pairwise fun x y => ¬ y.Earlier x)
    (hone : OnePer DealInfo.dates deals result) : result.Pairwise DealInfo.Earlier := by
  refine (hsorted.and (List.pairwise_map.1 hone.nodup)).imp fun {x y} h => ?_
  obtain ⟨hle, hne⟩ := h
  rw [DealInfo.earlier_iff] at hle ⊢
  have hdates : ¬ (x.departureDate.toNat = y.departureDate.toNat ∧ x.returnDate.toNat = y.returnDate.toNat) := by
    rintro ⟨hdep, hret⟩
    exact hne (Prod.ext (UInt32.toNat_inj.1 hdep) (UInt32.toNat_inj.1 hret))
  omega

/-! ## Both intervals given -/

variable {p : TopParams} {a b c d : DateParts} {q : DayQuery} {xs : List DealInfo}

/-- Deals in two intervals of at most a year are told apart by their keys. -/
theorem FourBounds.Within.dates_inj {x y : DealInfo} (hx : FourBounds.Within p a b c d x)
    (hy : FourBounds.Within p a b c d y) (hdep : b.number ≤ a.number + 365) (hret : d.number ≤ c.number + 365)
    (hkey : x.departureDate <<< 18 ^^^ x.returnDate = y.departureDate <<< 18 ^^^ y.returnDate) :
    x.dates = y.dates := by
  obtain ⟨hdepX, hretX, h1, h2, h3, h4, -⟩ := hx
  obtain ⟨hdepY, hretY, h5, h6, h7, h8, -⟩ := hy
  have hdeps : Close x.departureDate y.departureDate :=
    ⟨hdepY.code_lt hdepX (by omega), hdepX.code_lt hdepY (by omega)⟩
  have hrets : Close x.returnDate y.returnDate :=
    ⟨hretY.code_lt hretX (by omega), hretX.code_lt hretY (by omega)⟩
  obtain ⟨hsame, hsame'⟩ := datesKey_inj hdeps hrets hkey
  exact Prod.ext hsame hsame'

/-- There are no more pairs than days in one interval times days in the other. -/
theorem dates_card (hxs : ∀ x ∈ xs, FourBounds.Within p a b c d x) :
    (xs.map DealInfo.dates).toFinset.card ≤ (b.number + 1 - a.number) * (d.number + 1 - c.number) := by
  have hpair (k : UInt32 × UInt32) (hk : k ∈ (xs.map DealInfo.dates).toFinset) :
      ∃ x, FourBounds.Within p a b c d x ∧ x.dates = k := by
    obtain ⟨x, hx, rfl⟩ := List.mem_map.1 (List.mem_toFinset.1 hk)
    exact ⟨x, hxs x hx, rfl⟩
  have hcard : (xs.map DealInfo.dates).toFinset.card ≤
      (Finset.Icc a.number b.number ×ˢ Finset.Icc c.number d.number).card := by
    refine Finset.card_le_card_of_injOn (fun k => (dayOf k.1, dayOf k.2)) (fun k hk => ?_) fun k hk k' hk' hsame => ?_
    · obtain ⟨x, hx, rfl⟩ := hpair k hk
      exact Finset.mem_coe.2 (Finset.mem_product.2 ⟨Finset.mem_Icc.2 ⟨hx.departureFrom, hx.departureTo⟩,
        Finset.mem_Icc.2 ⟨hx.returnFrom, hx.returnTo⟩⟩)
    · obtain ⟨x, hx, rfl⟩ := hpair k hk
      obtain ⟨y, hy, rfl⟩ := hpair k' hk'
      obtain ⟨hdep, hret⟩ := Prod.ext_iff.1 hsame
      exact Prod.ext ((hx.departure.inj hy.departure).2 hdep) ((hx.returns.inj hy.returns).2 hret)
  rwa [Finset.card_product, Nat.card_Icc, Nat.card_Icc] at hcard

/-- An interval with one bound is rejected, so the four bounds are given. -/
theorem fourBounds_of_given {u : Uninit} {now : UInt32} {codes : List UInt32} {countries : List UInt8}
    (hvalid : p.ValidDates) (hgiven : p.departureGiven = true ∧ p.returnGiven = true)
    (hdep : (queryOf u now p codes countries).departureDateValues.duration ≠ 0)
    (hret : (queryOf u now p codes countries).returnDateValues.duration ≠ 0) :
    ∃ a b c d, FourBounds p a b c d := by
  simp only [queryOf, if_pos hgiven.1, SearchQuery.dateInterval] at hdep
  simp only [queryOf, if_pos hgiven.2, SearchQuery.dateInterval] at hret
  rcases ha : p.departureDateFrom with - | a
  · simp [ha] at hdep
  rcases hb : p.departureDateTo with - | b
  · simp [hb] at hdep
  rcases hc : p.returnDateFrom with - | c
  · simp [hc] at hret
  rcases hd : p.returnDateTo with - | d
  · simp [hd] at hret
  exact ⟨a, b, c, d, ha, hb, hc, hd, hvalid.departureFrom a ha, hvalid.departureTo b hb, hvalid.returnFrom c hc,
    hvalid.returnTo d hd⟩

/-! ## The theorem -/

/-- What a search for all combinations promises: the keys tell the pairs of dates apart, and the answer has a deal
for each pair, by departure date and then return date. -/
structure AllPairs (key : DealInfo → UInt32) (deals result : List DealInfo) : Prop where
  separated : ∀ x ∈ deals, ∀ y ∈ deals, key x = key y → x.dates = y.dates
  onePer : OnePer DealInfo.dates deals result
  sorted : result.Pairwise DealInfo.Earlier

/-- **An answer in order** holds its promise, cut at the limit, exactly when the keys tell the pairs apart and the
limit leaves room for all pairs. -/
theorem allPairs_iff {key : DealInfo → UInt32} {deals answer : List DealInfo} {limit : ℕ}
    (hkey : ∀ x y, x.dates = y.dates → key x = key y) (hanswer : OnePer key deals answer)
    (hsorted : answer.Pairwise fun x y => ¬ y.Earlier x) :
    AllPairs key deals (answer.take limit) ↔
      (∀ x ∈ deals, ∀ y ∈ deals, key x = key y → x.dates = y.dates) ∧
        (deals.map DealInfo.dates).toFinset.card ≤ limit := by
  constructor
  · intro h
    refine ⟨h.separated, ?_⟩
    rw [← h.onePer.length_eq]
    exact List.length_take_le _ _
  · rintro ⟨hseparated, hcard⟩
    have hpair := hanswer.congr fun x hx y hy => ⟨hseparated x hx y hy, hkey x y⟩
    have hone : OnePer DealInfo.dates deals (answer.take limit) := (hpair.take_iff limit).2 hcard
    exact ⟨hseparated, hone, earlier_of_sorted (hsorted.sublist (List.take_sublist _ _)) hone⟩

section Combinations

variable {u : Uninit} {now : UInt32} {codes : List UInt32} {countries : List UInt8}

/-- The plan of a search for all combinations. -/
theorem combinations_plan (hall : p.allCombinations = some true) (hexact : p.departureOrReturnDate = none)
    (hpre : dayPreSearch { queryOf u now p codes countries with groupByReturnDate := false } = .ok q) :
    q.filterExactDate = false ∧ q.groupByReturnDate = false ∧
      (∀ x, getDateToGroup q x = x.departureDate <<< 18 ^^^ x.returnDate) ∧
      q.filterResultLimit.toNat = (queryOf u now p codes countries).departureDateValues.duration.toNat *
        (queryOf u now p codes countries).returnDateValues.duration.toNat := by
  obtain ⟨rfl, -, -, hwide⟩ := dayPreSearch_plan hpre
  have hfilter : (queryOf u now p codes countries).filterExactDate = false := by simp [queryOf, hexact]
  have hcombinations : (queryOf u now p codes countries).filterAllCombinations = true := by simp [queryOf, hall]
  have hlimit (dep ret : UInt32) :
      dayLimit (queryOf u now p codes countries) dep ret = ((dep * ret).toUInt16, false) := by
    simp [dayLimit, hfilter, hcombinations]
  obtain ⟨-, hdep, hret⟩ := hwide hcombinations
  rw [hlimit]
  refine ⟨hfilter, rfl, fun x => by simp [getDateToGroup, hfilter, hcombinations], ?_⟩
  -- the product of two numbers up to 11 fits 16 bits
  have hdep : (queryOf u now p codes countries).departureDateValues.duration.toNat ≤ 11 :=
    UInt32.le_iff_toNat_le.1 hdep
  have hret : (queryOf u now p codes countries).returnDateValues.duration.toNat ≤ 11 :=
    UInt32.le_iff_toNat_le.1 hret
  have hproduct := Nat.mul_le_mul hdep hret
  rw [UInt32.toNat_toUInt16, UInt32.toNat_mul, Nat.mod_eq_of_lt (by omega), Nat.mod_eq_of_lt (by omega)]

/-- **Both intervals given**: the keys tell the pairs apart, and the limit leaves room for all of them. -/
theorem given_separated {records : List DealInfo} {w : SearchWorld} (hgood : p.badDates = false)
    (hvalid : p.ValidDates) (hall : p.allCombinations = some true)
    (hpre : dayPreSearch { queryOf u now p codes countries with groupByReturnDate := false } = .ok q)
    (hdates : ∀ x ∈ records, x.StoredDates) (hgiven : p.departureGiven = true ∧ p.returnGiven = true) :
    (∀ x ∈ matching w (queryOf u now p codes countries) records,
        ∀ y ∈ matching w (queryOf u now p codes countries) records,
          x.departureDate <<< 18 ^^^ x.returnDate = y.departureDate <<< 18 ^^^ y.returnDate → x.dates = y.dates) ∧
      ((matching w (queryOf u now p codes countries) records).map DealInfo.dates).toFinset.card ≤
        (queryOf u now p codes countries).departureDateValues.duration.toNat *
          (queryOf u now p codes countries).returnDateValues.duration.toNat := by
  obtain ⟨-, -, -, hwide⟩ := dayPreSearch_plan hpre
  obtain ⟨⟨hdep, hret⟩, hdep', hret'⟩ := hwide (by simp [queryOf, hall])
  obtain ⟨a, b, c, d, hb⟩ := fourBounds_of_given hvalid hgiven hdep hret
  obtain ⟨hab, -, -, hcd⟩ := hb.ordered hgood
  obtain ⟨hdepartures, hreturns, -⟩ := fourBounds_durations u now codes countries hb hgood
  -- the intervals are at most eleven days long
  rw [UInt32.le_iff_toNat_le, hdepartures] at hdep'
  rw [UInt32.le_iff_toNat_le, hreturns] at hret'
  have heleven : (11 : UInt32).toNat = 11 := rfl
  have hwithin (x) (hx : x ∈ matching w (queryOf u now p codes countries) records) :
      FourBounds.Within p a b c d x := by
    obtain ⟨hmem, hpass⟩ := List.mem_filter.1 hx
    rw [processElement_queryOf] at hpass
    exact hb.within (hdates x hmem) hpass
  refine ⟨fun x hx y hy => (hwithin x hx).dates_inj (hwithin y hy) (by omega) (by omega), ?_⟩
  have hcard := dates_card hwithin
  have hlong : b.number + 1 - a.number = b.number - a.number + 1 := by omega
  have hlong' : d.number + 1 - c.number = d.number - c.number + 1 := by omega
  rwa [hlong, hlong', ← hdepartures, ← hreturns] at hcard

end Combinations

/-- **Each pair of dates is listed once**, in order, when both intervals are given, and else exactly when the keys of
the matching deals tell their pairs apart and the pairs are no more than the product of the durations found in
memory. -/
theorem datePairs_iff {localeTop : TopParams → Except Thrown (List UInt32)} {params : ObjectMap} {u : Uninit}
    {now : UInt32} {query : SearchQuery} {w : SearchWorld} {records result : List DealInfo}
    (hparse : TopParams.parse localeTop params = .ok p) (hvalid : p.ValidDates)
    (hall : p.allCombinations = some true) (hexact : p.departureOrReturnDate = none)
    (hquery : buildQuery u now p = .ok query)
    (hpre : dayPreSearch { query with groupByReturnDate := false } = .ok q) (hrecords : w.records = .ok records)
    (hdates : ∀ x ∈ records, x.StoredDates) (hresult : execute .cheapestByDay w query = .ok result) :
    AllPairs (getDateToGroup q) (matching w query records) result ↔
      (p.departureGiven = true ∧ p.returnGiven = true) ∨
        (∀ x ∈ matching w query records, ∀ y ∈ matching w query records,
            getDateToGroup q x = getDateToGroup q y → x.dates = y.dates) ∧
          ((matching w query records).map DealInfo.dates).toFinset.card ≤
            query.departureDateValues.duration.toNat * query.returnDateValues.duration.toNat := by
  obtain ⟨codes, countries, -, rfl⟩ := buildQuery_ok hquery
  obtain ⟨hfilter, hgroup, hkey, hlimit⟩ := combinations_plan hall hexact hpre
  have hanswer : OnePer (getDateToGroup q) _ _ := answer_onePer .cheapestByDay
    { q with minTimestamp := minTimestamp w.globalExpireAt w.clock } w.orderPerm
    (matching w (queryOf u now p codes countries) records)
  have hsorted := answer_sorted (q := { q with minTimestamp := minTimestamp w.globalExpireAt w.clock }) hfilter hgroup
    w.order (matching w (queryOf u now p codes countries) records)
  have hsame (x y : DealInfo) (h : x.dates = y.dates) : getDateToGroup q x = getDateToGroup q y := by
    obtain ⟨hdep, hret⟩ : x.departureDate = y.departureDate ∧ x.returnDate = y.returnDate := Prod.ext_iff.1 h
    rw [hkey, hkey, hdep, hret]
  rw [daySearch_eq hpre hrecords hresult, hlimit, allPairs_iff hsame hanswer hsorted]
  refine (or_iff_right_of_imp fun hgiven => ?_).symm
  simp only [hkey]
  exact given_separated (TopParams.parse_badDates hparse) hvalid hall hpre hdates hgiven

/-- A request for all combinations, of the dates given. -/
def combinationsRequest (dates : ObjectMap) : ObjectMap :=
  [⟨str "origin", str "LED"⟩, ⟨str "group_by_date", str "true"⟩, ⟨str "all_combinations", str "true"⟩] ++ dates

/-- What `getTop` reads of the request with intervals of one day. -/
def pairParams : TopParams :=
  { returnParams (june 15) with departureOrReturnDate := none, allCombinations := some true }

/-- The query of that request. -/
def pairQuery : SearchQuery := queryOf clearedMemory 100000 pairParams [] []

/-- What `getTop` reads of the request without intervals. -/
def undatedParams : TopParams :=
  { pairParams with departureDateFrom := none, departureDateTo := none, returnDateFrom := none, returnDateTo := none }

/-- The query of that request, in a memory with two durations of one day. -/
def undatedQuery : SearchQuery := queryOf (memory 1 1) 100000 undatedParams [] []

theorem datePairs_june :
    ∃ q result, dayPreSearch { pairQuery with groupByReturnDate := false } = .ok q ∧
      (AllPairs (getDateToGroup q) (matching (returnWorld (june 15)) pairQuery [returnDeal (june 15)]) result ↔
        (pairParams.departureGiven = true ∧ pairParams.returnGiven = true) ∨
          (∀ x ∈ matching (returnWorld (june 15)) pairQuery [returnDeal (june 15)],
            ∀ y ∈ matching (returnWorld (june 15)) pairQuery [returnDeal (june 15)],
              getDateToGroup q x = getDateToGroup q y → x.dates = y.dates) ∧
            ((matching (returnWorld (june 15)) pairQuery [returnDeal (june 15)]).map DealInfo.dates).toFinset.card ≤
              pairQuery.departureDateValues.duration.toNat * pairQuery.returnDateValues.duration.toNat) := by
  obtain ⟨q, hpre⟩ : ∃ q, dayPreSearch { pairQuery with groupByReturnDate := false } = .ok q := ⟨_, rfl⟩
  obtain ⟨result, hresult⟩ : ∃ result, execute .cheapestByDay (returnWorld (june 15)) pairQuery = .ok result :=
    ⟨_, rfl⟩
  have hparse : TopParams.parse (fun _ => .ok []) (combinationsRequest
      [⟨str "departure_date_from", str "2016-06-01"⟩, ⟨str "departure_date_to", str "2016-06-01"⟩,
        ⟨str "return_date_from", str "2016-06-15"⟩, ⟨str "return_date_to", str "2016-06-15"⟩]) = .ok pairParams := by
    decide +kernel
  have hvalid : pairParams.ValidDates := by
    constructor <;> simp [pairParams, returnParams, june_valid.1, june_valid.2.1]
  have hquery : buildQuery clearedMemory 100000 pairParams = .ok pairQuery := rfl
  exact ⟨q, result, hpre, datePairs_iff hparse hvalid rfl rfl hquery hpre rfl
    (fun x hx => (returnWorld_dates june_valid.2.1 (by decide) x hx).1) hresult⟩

/-- Two deals that depart one day after the other. -/
def twoDepartures : List DealInfo := [returnDeal (june 15), { returnDeal (june 15) with departureDate := 20160602 }]

/-- A table with these deals. -/
def twoDepartureWorld : SearchWorld := { returnWorld (june 15) with records := .ok twoDepartures }

/-- **A pair is not listed.** A request without intervals is accepted when the memory happens to hold two durations
of one day, and then lists one of the two pairs. -/
theorem pairs_unlisted :
    ∃ q result, TopParams.parse (fun _ => .ok []) (combinationsRequest []) = .ok undatedParams ∧
      undatedParams.ValidDates ∧
      buildQuery (memory 1 1) 100000 undatedParams = .ok undatedQuery ∧
      dayPreSearch { undatedQuery with groupByReturnDate := false } = .ok q ∧
      twoDepartureWorld.records = .ok twoDepartures ∧
      execute .cheapestByDay twoDepartureWorld undatedQuery = .ok result ∧
      (∀ x ∈ twoDepartures, x.StoredDates) ∧
      ¬ AllPairs (getDateToGroup q) (matching twoDepartureWorld undatedQuery twoDepartures) result := by
  obtain ⟨q, hpre⟩ : ∃ q, dayPreSearch { undatedQuery with groupByReturnDate := false } = .ok q := ⟨_, rfl⟩
  obtain ⟨result, hresult⟩ : ∃ result, execute .cheapestByDay twoDepartureWorld undatedQuery = .ok result := ⟨_, rfl⟩
  have hdates : ∀ x ∈ twoDepartures, x.StoredDates := by
    have hfirst := (returnWorld_dates june_valid.2.1 (by decide) _ (List.mem_singleton.2 rfl)).1
    have hsecond : CalendarCode 20160602 :=
      ⟨june 2, ⟨⟨by decide, by decide, by decide⟩, by decide, by decide⟩, rfl⟩
    intro x hx
    rcases List.mem_cons.1 hx with rfl | hx
    · exact hfirst
    · rw [List.mem_singleton.1 hx]
      exact ⟨hsecond, hfirst.returns⟩
  refine ⟨q, result, by decide +kernel, by constructor <;> simp [undatedParams, pairParams, returnParams], rfl, hpre,
    rfl, hresult, hdates, fun h => ?_⟩
  -- the two deals match, and the limit is 1
  have hlimit : q.filterResultLimit.toNat = 1 := (combinations_plan rfl rfl hpre).2.2.2
  have hcut := congrArg List.length (daySearch_eq hpre rfl hresult)
  rw [hlimit, List.length_take, h.onePer.length_eq] at hcut
  have htwo : ((matching twoDepartureWorld undatedQuery twoDepartures).map DealInfo.dates).toFinset.card = 2 := by
    decide +kernel
  omega

end DealsServer
