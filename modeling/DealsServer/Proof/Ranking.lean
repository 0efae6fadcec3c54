import DealsServer.Lib.Selection
import DealsServer.Proof.Cheapest
import DealsServer.Proof.Uninit
import Mathlib.Data.List.GetD

/-!
# Top searches

* `topSearch_ranked`: what `execute` returns for `SimplyCheapest` and `CheapestByCountry` is a list of matching
  records, one for each destination or country, in the order of their prices, cut at the limit, and no group
  left out has a cheaper winner.

The winner of a group is a record of its history, whatever `findCheapestAndLast` makes of it
(`findCheapestAndLast_mem`), and every group that was seen has a history (`Tracked`).
-/

namespace DealsServer

open Selection

/-! ## Winners -/

theorem findLoop_mem {history : List DealInfo} (len i : ℕ) {lastDeal : DealInfo} (hlen : len < history.length)
    (hlast : lastDeal ∈ history) : findLoop history len i lastDeal ∈ history := by
  induction len generalizing i lastDeal with
  | zero => exact hlast
  | succ len ih =>
    unfold findLoop
    split_ifs
    · apply ih 1 (by omega)
      rw [List.getD_eq_getElem _ _ hlen]
      exact List.getElem_mem hlen
    · exact hlast

/-- The winner of a history is one of its records. -/
theorem findCheapestAndLast_mem {history : List DealInfo} (h : history ≠ []) :
    findCheapestAndLast history ∈ history := by
  obtain ⟨d, rest, rfl⟩ := List.exists_cons_of_ne_nil h
  have hlen : (d :: rest).length - 1 < (d :: rest).length := by simp
  apply findLoop_mem _ _ hlen
  rw [List.getD_eq_getElem _ _ hlen]
  exact List.getElem_mem hlen

/-- The winner of a group that was seen is a record of that group. -/
theorem winner_mem {key : DealInfo → UInt32} {deals : List DealInfo} {k : UInt32}
    (hk : k ∈ (groupsOf key deals).keys) : winner key deals k ∈ deals ∧ key (winner key deals k) = k := by
  have ht : Tracked key deals (groupsOf key deals) := tracked_groupsOf deals
  apply ht.hist
  apply findCheapestAndLast_mem
  obtain ⟨h, d, mark, hhist, -⟩ := ht.last k hk
  rw [hhist]
  simp

/-! ## The ranked list -/

/-- The list is a ranked selection from the matching records. -/
structure Ranked (key : DealInfo → UInt32) (limit : ℕ) (matching result : List DealInfo) : Prop where
  found : ∀ d ∈ result, d ∈ matching
  distinct : (result.map key).Nodup
  ascending : result.Pairwise fun a b => a.price ≤ b.price
  length : result.length = min limit (matching.map key).toFinset.card
  winners : ∀ d ∈ result, d = winner key matching (key d)
  leftOut : ∀ k ∈ matching.map key, k ∉ result.map key → ∀ d ∈ result, d.price ≤ (winner key matching k).price

/-- **A prefix of the answer has the cheapest winners.** -/
theorem answer_topOf {agg : Aggregation} (hagg : agg ≠ .cheapestByDay) (q : DayQuery)
    {order : List UInt32 → List UInt32} (horder : ∀ l, (order l).Perm l) (limit : ℕ) (deals : List DealInfo) :
    TopOf (fun a b => a.price ≤ b.price) ((groupsOf (agg.key q) deals).keys.map (winner (agg.key q) deals)) limit
      ((agg.answer q order deals).take limit) := by
  have hlt : ∀ a b, agg.lt q a b = decide (a.price < b.price) := by
    intro a b
    cases agg
    · rfl
    · rfl
    · exact absurd rfl hagg
  have hle : ∀ a b, (!agg.lt q b a) = true ↔ a.price ≤ b.price := by
    intro a b
    rw [hlt, Bool.not_eq_true', decide_eq_false_iff_not, UInt32.not_lt]
  apply topOf_mergeSort (fun a b => (hle a b).1)
  · intro a b c hab hbc
    exact (hle a c).2 (UInt32.le_trans ((hle a b).1 hab) ((hle b c).1 hbc))
  · intro a b
    rw [Bool.or_eq_true, hle, hle]
    exact UInt32.le_total a.price b.price
  · exact (horder _).map _

/-- **A prefix of the answer is a ranked selection.** -/
theorem answer_ranked {agg : Aggregation} (hagg : agg ≠ .cheapestByDay) (q : DayQuery)
    {order : List UInt32 → List UInt32} (horder : ∀ l, (order l).Perm l) (limit : ℕ) (deals : List DealInfo) :
    Ranked (agg.key q) limit deals ((agg.answer q order deals).take limit) := by
  have htop := answer_topOf hagg q horder limit deals
  set key := agg.key q with hkey
  have ht : Tracked key deals (groupsOf key deals) := tracked_groupsOf deals
  have hwinner : ∀ d ∈ (agg.answer q order deals).take limit, ∃ k ∈ (groupsOf key deals).keys, winner key deals k = d :=
    fun d hd => List.mem_map.1 (htop.mem hd)
  have hkeys : ((groupsOf key deals).keys.map (winner key deals)).map key = (groupsOf key deals).keys := by
    rw [List.map_map]
    exact (List.map_congr_left fun k hk => (winner_mem hk).2).trans (List.map_id _)
  -- everything is known of the whole list of winners, and the prefix inherits it
  constructor
  · intro d hd
    obtain ⟨k, hk, rfl⟩ := hwinner d hd
    exact (winner_mem hk).1
  · apply htop.nodup_map
    rw [hkeys]
    exact ht.nodup
  · exact htop.sorted
  · have hset : (deals.map key).toFinset = (groupsOf key deals).keys.toFinset := by
      ext k
      rw [List.mem_toFinset, List.mem_toFinset, ht.mem_keys]
    rw [htop.length, hset, List.toFinset_card_of_nodup ht.nodup, List.length_map]
  · intro d hd
    obtain ⟨k, hk, rfl⟩ := hwinner d hd
    rw [(winner_mem hk).2]
  · -- a group that is left out has a winner behind the prefix
    intro k hk hleft d hd
    have hmem := (ht.mem_keys k).2 hk
    apply htop.leftOut hd (List.mem_map_of_mem hmem)
    intro hin
    apply hleft
    rw [← (winner_mem hmem).2]
    exact List.mem_map_of_mem hin

/-! ## Searches -/

/-- The unexpired records that pass every filter of the query. -/
def matching (w : SearchWorld) (q : SearchQuery) (records : List DealInfo) : List DealInfo :=
  records.filter (processElement { q with minTimestamp := minTimestamp w.globalExpireAt w.clock })

/-- The limit of the result: the number of requested countries, `deals_limit`, or 20. -/
def topLimit (agg : Aggregation) (q : SearchQuery) (p : TopParams) : ℕ :=
  if agg = .cheapestByCountry ∧ q.destinationCountrySet ≠ [] then q.destinationCountrySet.length
  else (p.dealsLimit.map UInt32.toNat).getD 20

theorem insertSet_nodup {α : Type} [DecidableEq α] (values set : List α) (h : set.Nodup) :
    (values.foldl SearchQuery.insertSet set).Nodup := by
  induction values generalizing set with
  | nil => exact h
  | cons x values ih =>
    apply ih
    unfold SearchQuery.insertSet
    split_ifs with hx
    · exact h
    · exact List.nodup_append.2 ⟨h, List.nodup_singleton x, by rintro a ha b hb rfl; exact hx (List.mem_singleton.1 hb ▸ ha)⟩

/-- A set of countries fits the limit, a `uint16_t`. -/
theorem countryCodes_length {countries : CountryCodes} {codes : List UInt8} (h : countryCodes countries = .ok codes) :
    codes.length.toUInt16.toNat = codes.length := by
  have hnodup : codes.Nodup := by
    unfold countryCodes at h
    rcases hvalues : (countries.getD []).mapM CountryCode.getCode with e | values <;> rw [hvalues] at h
    · cases h
    · cases h
      exact insertSet_nodup values [] List.nodup_nil
  have hlength : codes.length ≤ 2 ^ 8 := by
    have hmap : (codes.map UInt8.toNat).Nodup := hnodup.map fun a b hab => UInt8.toNat_inj.1 hab
    have hsub : codes.map UInt8.toNat ⊆ List.range (2 ^ 8) := by
      intro n hn
      obtain ⟨c, -, rfl⟩ := List.mem_map.1 hn
      exact List.mem_range.2 c.toNat_lt
    simpa using (hmap.subperm hsub).length_le
  rw [Nat.toUInt16_eq, UInt16.toNat_ofNat']
  omega

/-- What `pre_search` makes of an accepted query. -/
theorem preSearch_limit {agg : Aggregation} (hagg : agg ≠ .cheapestByDay) {u : Uninit} {now : UInt32} {p : TopParams}
    {q : SearchQuery} {q' : DayQuery} (hq : buildQuery u now p = .ok q)
    (hpre : agg.preSearch { q with groupByReturnDate := false } = .ok q') :
    ∃ limit : UInt16, q' = { q with filterResultLimit := limit, groupByReturnDate := false } ∧
      limit.toNat = topLimit agg q p := by
  rw [buildQuery_eq] at hq
  rcases hc : checkParams p with e | c
  · rw [hc] at hq
    cases hq
  rw [hc] at hq
  cases hq
  obtain ⟨-, hcountries, -, -, -, hlimit⟩ := checkParams_ok.1 hc
  have hdeals := checkLimit_toNat hlimit
  -- a search by country takes as many deals as countries are asked for
  cases agg
  · unfold Aggregation.preSearch at hpre
    dsimp only at hpre
    split_ifs at hpre
    · cases hpre
    cases hpre
    refine ⟨_, rfl, ?_⟩
    rw [topLimit, if_neg (by simp)]
    exact hdeals
  · rw [preSearch_country] at hpre
    split_ifs at hpre with hall hflag
    · cases hpre
    · cases hpre
      have hset : c.2 ≠ [] := by simpa [queryOf] using hflag
      refine ⟨_, rfl, ?_⟩
      rw [topLimit, if_pos ⟨rfl, hset⟩]
      exact countryCodes_length hcountries
    · cases hpre
      have hset : c.2 = [] := by simpa [queryOf] using hflag
      refine ⟨_, rfl, ?_⟩
      rw [topLimit, if_neg fun h => h.2 hset]
      exact hdeals
  · exact absurd rfl hagg

/-- **A top search is a ranked selection.** -/
theorem topSearch_ranked (agg : Aggregation) (hagg : agg ≠ .cheapestByDay) (w : SearchWorld) (u : Uninit)
    (now : UInt32) (p : TopParams) (q : SearchQuery) (result : List DealInfo) (hq : buildQuery u now p = .ok q)
    (hresult : execute agg w q = .ok result) :
    ∃ records, w.records = .ok records ∧
      Ranked (agg.key { q with groupByReturnDate := false }) (topLimit agg q p) (matching w q records) result := by
  rw [execute_eq] at hresult
  rcases hpre : agg.preSearch { q with groupByReturnDate := false } with e | q'
  · rw [hpre] at hresult
    cases hresult
  rw [hpre] at hresult
  obtain ⟨limit, rfl, hlimit⟩ := preSearch_limit hagg hq hpre
  rcases hrecords : w.records with fault | records
  · simp only [bind, Except.bind, found, hrecords] at hresult
    cases hresult
  refine ⟨records, rfl, ?_⟩
  simp only [bind, Except.bind, found, hrecords] at hresult
  rw [← hlimit]
  cases hresult
  have hkey (q₁ q₂ : DayQuery) : agg.key q₁ = agg.key q₂ := by
    cases agg
    · rfl
    · rfl
    · exact absurd rfl hagg
  rw [hkey _ ({ q with
    filterResultLimit := limit, groupByReturnDate := false
    minTimestamp := minTimestamp w.globalExpireAt w.clock })]
  exact answer_ranked hagg _ w.orderPerm _ _

/-- A request for one deal from the origin 0. -/
def oneDeal : TopParams where
  origin := 0
  destinations := none
  destinationCountries := none
  departureDateFrom := none
  departureDateTo := none
  returnDateFrom := none
  returnDateTo := none
  dweekdays := none
  rweekdays := none
  stayFrom := none
  stayTo := none
  timelimit := none
  dealsLimit := some 1
  directFlights := none
  roundtripFlights := none
  addLocaleTop := none
  groupByDate := none
  groupByCountry := none
  locale := none
  departureOrReturnDate := none
  allCombinations := none

/-- An index with deals to two destinations. -/
def twoDestinations : SearchWorld where
  lifetimeClock := 100000
  clock := 100000
  globalExpireAt := 0
  records := .ok [fare 17 14 90000, { fare 17 12 90000 with destination := 1 }, fare 14 15 90000]
  order := id
  payload _ := .ok []
  orderPerm := fun l => List.Perm.refl l

/-- One deal is listed, though there are two destinations. -/
theorem topSearch_ranked_one :
    ∃ result, execute .simplyCheapest twoDestinations (queryOf (memory 0 0) 100000 oneDeal [] []) = .ok result ∧
      result.length = 1 ∧ ∃ records, twoDestinations.records = .ok records ∧
        Ranked (Aggregation.simplyCheapest.key
            { queryOf (memory 0 0) 100000 oneDeal [] [] with groupByReturnDate := false })
          (topLimit .simplyCheapest (queryOf (memory 0 0) 100000 oneDeal [] []) oneDeal)
          (matching twoDestinations (queryOf (memory 0 0) 100000 oneDeal [] []) records) result := by
  have hquery : buildQuery (memory 0 0) 100000 oneDeal = .ok (queryOf (memory 0 0) 100000 oneDeal [] []) := by
    decide +kernel
  obtain ⟨result, hresult⟩ : ∃ result,
      execute .simplyCheapest twoDestinations (queryOf (memory 0 0) 100000 oneDeal [] []) = .ok result := ⟨_, rfl⟩
  obtain ⟨records, hrecords, hranked⟩ := topSearch_ranked _ (by decide) _ _ _ _ _ _ hquery hresult
  refine ⟨result, hresult, ?_, records, hrecords, hranked⟩
  cases hrecords
  rw [hranked.length]
  decide +kernel

end DealsServer
