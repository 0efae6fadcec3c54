import DealsServer.Proof.DateGroups

/-!
# Deals of one date

With `departure_or_return_date` all deals depart or return on one date `X`, and `post_search` sorts them by a
comparison with a case for each way to do so.

* `exactDate_ordered`: the comparison is a strict weak order on the deals of `X`, and the sorted deals are first those
  that return on `X` after another day, by departure, and then those that depart on `X`, by return.

All cases of the comparison agree with one number of a deal (`exactRank`), because a deal that returns on `X` and
departs on another day departs before `X`.
-/

namespace DealsServer

open Selection

/-- The deal departs or returns on `X`, and does not return before it departs. -/
structure DealInfo.OnDate (X : UInt32) (d : DealInfo) : Prop where
  ordered : d.Ordered
  on : d.departureDate = X ∨ d.returnDate = X

/-- What `addDeal` accepts does not return before it departs. -/
theorem dealRecord_ordered {params : ObjectMap} {p : AddParams} (h : AddParams.parse params = .ok p)
    (stray : ℤ → UInt8) (now : UInt32) (place : Location) : (dealRecord stray now place p).Ordered := by
  have hgt := AddParams.parse_ordered h
  rcases hreturn : p.returnDate with _ | r
  · left
    simp [dealRecord, hreturn]
  · right
    rw [hreturn] at hgt
    have hle : p.departureDate.code ≤ r.code := by simpa [Date.gt, UInt32.not_lt] using hgt
    simpa [dealRecord, hreturn] using hle

/-! ## The rank of a deal -/

/-- Where a deal of `X` is listed: those that depart on another day by departure, then the others by return. -/
def exactRank (X : UInt32) (d : DealInfo) : ℕ :=
  if d.departureDate = X then 2 ^ 32 + d.returnDate.toNat else d.departureDate.toNat

theorem exactRank_lt_iff (X : UInt32) (d : DealInfo) : exactRank X d < 2 ^ 32 ↔ d.departureDate ≠ X := by
  have hdep := d.departureDate.toNat_lt
  unfold exactRank
  split_ifs with h
  · simp [h]
  · simpa [h] using hdep

variable {X : UInt32} {q : DayQuery}

/-- A deal that returns on `X` and departs on another day departs before. -/
theorem DealInfo.OnDate.departs_before {d : DealInfo} (h : d.OnDate X) (hX : 0 < X.toNat) (hdep : d.departureDate ≠ X) :
    d.returnDate = X ∧ d.departureDate.toNat < X.toNat := by
  have hreturn := h.on.resolve_left hdep
  refine ⟨hreturn, ?_⟩
  rcases h.ordered with hzero | hle
  · rw [hreturn] at hzero
    rw [hzero] at hX
    exact absurd hX (lt_irrefl 0)
  · rw [hreturn, UInt32.le_iff_toNat_le] at hle
    have hne := mt UInt32.toNat_inj.1 hdep
    omega

/-- **The comparison is that of the ranks.** -/
theorem dayLt_exact_iff (hX : 0 < X.toNat) (hexact : q.filterExactDate = true) (hvalue : q.exactDateValue = X)
    {a b : DealInfo} (ha : a.OnDate X) (hb : b.OnDate X) : dayLt q a b = true ↔ exactRank X a < exactRank X b := by
  unfold dayLt exactRank
  rw [if_pos hexact, hvalue]
  have hword := X.toNat_lt
  by_cases hdepA : a.departureDate = X
  · by_cases hdepB : b.departureDate = X
    · -- both depart on `X`, so the returns are compared
      simp only [hdepA, hdepB, if_true, UInt32.lt_irrefl, and_self]
      split_ifs with hboth
      · simp [← hboth.1, ← hboth.2]
      · simp [UInt32.lt_iff_toNat_lt]
    · -- `b` departs before and comes first
      obtain ⟨hreturnB, hbefore⟩ := hb.departs_before hX hdepB
      have hlt : ¬ X < b.departureDate := by
        rw [UInt32.lt_iff_toNat_lt]
        omega
      simp only [hdepA, hreturnB, Ne.symm hdepB, if_true, if_neg hdepB, and_false, and_true, if_false]
      split_ifs with hreturnA
      · simp only [hlt, decide_false, Bool.false_eq_true, false_iff]
        omega
      · simp only [hreturnA, decide_false, Bool.false_eq_true, false_iff]
        omega
  · obtain ⟨hreturnA, hbeforeA⟩ := ha.departs_before hX hdepA
    by_cases hdepB : b.departureDate = X
    · -- `a` departs before and comes first
      simp only [hreturnA, hdepB, Ne.symm hdepA, if_neg hdepA, if_true, true_and, false_and, if_false, decide_true]
      split_ifs with hreturnB
      · rw [decide_eq_true_eq, UInt32.lt_iff_toNat_lt]
        omega
      · simp only [true_iff]
        omega
    · -- both depart before, so the departures are compared
      obtain ⟨hreturnB, -⟩ := hb.departs_before hX hdepB
      simp [hreturnA, hreturnB, hdepA, hdepB, UInt32.lt_iff_toNat_lt]

/-- Deals of one rank have the same dates. -/
theorem dates_of_rank (hX : 0 < X.toNat) {a b : DealInfo} (ha : a.OnDate X) (hb : b.OnDate X)
    (hrank : exactRank X a = exactRank X b) : a.departureDate = b.departureDate ∧ a.returnDate = b.returnDate := by
  have hsame := exactRank_lt_iff X a
  rw [hrank, exactRank_lt_iff] at hsame
  unfold exactRank at hrank
  by_cases hdepA : a.departureDate = X
  · have hdepB : b.departureDate = X := by
      by_contra hdepB
      exact (hsame.1 hdepB) hdepA
    rw [if_pos hdepA, if_pos hdepB] at hrank
    exact ⟨hdepA.trans hdepB.symm, UInt32.toNat_inj.1 (by omega)⟩
  · have hdepB := hsame.2 hdepA
    rw [if_neg hdepA, if_neg hdepB] at hrank
    exact ⟨UInt32.toNat_inj.1 hrank, (ha.departs_before hX hdepA).1.trans (hb.departs_before hX hdepB).1.symm⟩

/-! ## The order of the answer -/

/-- First the deals that return on `X` after another day, by departure, then the deals that depart on `X`, by return. -/
structure InOrder (X : UInt32) (back out : List DealInfo) : Prop where
  returns : ∀ d ∈ back, d.returnDate = X ∧ d.departureDate ≠ X
  byDeparture : back.Pairwise fun a b => a.departureDate < b.departureDate
  departs : ∀ d ∈ out, d.departureDate = X
  byReturn : out.Pairwise fun a b => a.returnDate < b.returnDate

/-- Deals with ascending ranks are in order. -/
theorem inOrder_of_ranks (hX : 0 < X.toNat) {l : List DealInfo} (hon : ∀ d ∈ l, d.OnDate X)
    (hranks : l.Pairwise fun a b => exactRank X a < exactRank X b) : ∃ back out, l = back ++ out ∧ InOrder X back out := by
  obtain ⟨back, out, rfl, hback, hout⟩ := exists_split (2 ^ 32) (hranks.imp le_of_lt)
  have hdepB : ∀ d ∈ back, d.departureDate ≠ X := fun d hd => (exactRank_lt_iff X d).1 (hback d hd)
  have hdepO : ∀ d ∈ out, d.departureDate = X := by
    intro d hd
    by_contra hne
    exact absurd (hout d hd) (not_le.2 ((exactRank_lt_iff X d).2 hne))
  obtain ⟨hranksB, hranksO, -⟩ := List.pairwise_append.1 hranks
  refine ⟨back, out, rfl, fun d hd => ?_, hranksB.imp_of_mem fun {a b} ha hb h => ?_, hdepO,
    hranksO.imp_of_mem fun {a b} ha hb h => ?_⟩
  · exact ⟨((hon d (List.mem_append_left _ hd)).departs_before hX (hdepB d hd)).1, hdepB d hd⟩
  · rw [exactRank, exactRank, if_neg (hdepB a ha), if_neg (hdepB b hb)] at h
    exact UInt32.lt_iff_toNat_lt.2 h
  · rw [exactRank, exactRank, if_pos (hdepO a ha), if_pos (hdepO b hb)] at h
    exact UInt32.lt_iff_toNat_lt.2 (by omega)

/-- **What `post_search` sorts.** -/
theorem answer_inOrder (hX : 0 < X.toNat) (hexact : q.filterExactDate = true) (hvalue : q.exactDateValue = X)
    {order : List UInt32 → List UInt32} (horder : ∀ l, (order l).Perm l) {deals : List DealInfo}
    (hon : ∀ d ∈ deals, d.OnDate X) :
    (Aggregation.cheapestByDay.answer q order deals).Pairwise fun a b => exactRank X a < exactRank X b := by
  have hone : OnePer (getDateToGroup q) deals (Aggregation.cheapestByDay.answer q order deals) :=
    answer_onePer .cheapestByDay q horder deals
  have hsorted : (Aggregation.cheapestByDay.answer q order deals).Pairwise
      fun a b => exactRank X a ≤ exactRank X b := by
    apply pairwise_mergeSort_score
    intro a ha b hb
    -- the elements that are sorted are those of the answer
    have hmem : ∀ d ∈ (order (groupsOf (getDateToGroup q) deals).keys).map
        fun k => findCheapestAndLast ((groupsOf (getDateToGroup q) deals).hist k), d ∈ deals := by
      intro d hd
      exact hone.mem d ((List.mergeSort_perm _ _).mem_iff.2 hd)
    exact dayLt_exact_iff hX hexact hvalue (hon a (hmem a ha)) (hon b (hmem b hb))
  -- two deals of one rank would be of one group
  refine (hsorted.and (List.pairwise_map.1 hone.nodup)).imp_of_mem fun {a b} ha hb h => ?_
  refine lt_of_le_of_ne h.1 fun hrank => h.2 ?_
  obtain ⟨hdep, hret⟩ := dates_of_rank hX (hon a (hone.mem a ha)) (hon b (hone.mem b hb)) hrank
  unfold getDateToGroup
  rw [hdep, hret]

/-- What is said of the searches for the deals of `X`. -/
structure ExactOrdered (X : UInt32) : Prop where
  /-- deals that are accepted are ordered -/
  accepted : ∀ params p stray now place, AddParams.parse params = .ok p → (dealRecord stray now place p).Ordered
  /-- the comparison -/
  weakOrder : ∀ q : DayQuery, q.filterExactDate = true → q.exactDateValue = X →
    IsStrictWeakOrder {d : DealInfo // d.OnDate X} fun a b => dayLt q a b = true
  /-- the deals sorted by `post_search` -/
  sorted : ∀ (q : DayQuery) (order : List UInt32 → List UInt32) (deals : List DealInfo),
    q.filterExactDate = true → q.exactDateValue = X → (∀ l, (order l).Perm l) → (∀ d ∈ deals, d.OnDate X) →
      ∃ back out, Aggregation.cheapestByDay.answer q order deals = back ++ out ∧ InOrder X back out
  /-- the result of a search -/
  searched : ∀ (w : SearchWorld) (query : SearchQuery) (records result : List DealInfo),
    query.filterExactDate = true → query.exactDateValue = X → w.records = .ok records → (∀ d ∈ records, d.Ordered) →
      execute .cheapestByDay w query = .ok result → ∃ back out, result = back ++ out ∧ InOrder X back out

/-- What passes the filter of an exact date departs or returns on it. -/
theorem processElement_exact {q : SearchQuery} (hexact : q.filterExactDate = true) {d : DealInfo}
    (hpass : processElement q d = true) : d.departureDate = q.exactDateValue ∨ d.returnDate = q.exactDateValue := by
  simp only [processElement, ite_false_eq_true] at hpass
  obtain ⟨-, -, -, -, -, -, -, -, -, hdate, -⟩ := hpass
  by_contra hnot
  rw [not_or] at hnot
  exact hdate ⟨hexact, hnot.2, hnot.1⟩

theorem matching_onDate {w : SearchWorld} {query : SearchQuery} (hexact : query.filterExactDate = true)
    {records : List DealInfo} (hordered : ∀ d ∈ records, d.Ordered) :
    ∀ d ∈ matching w query records, d.OnDate query.exactDateValue := by
  intro d hd
  obtain ⟨hmem, hpass⟩ := List.mem_filter.1 hd
  exact ⟨hordered d hmem,
    processElement_exact (q := { query with minTimestamp := minTimestamp w.globalExpireAt w.clock }) hexact hpass⟩

/-- **Searches for one date.** -/
theorem exactDate_ordered {X : UInt32} (hX : CalendarCode X) : ExactOrdered X := by
  have hpos := hX.pos
  constructor
  · intro params p stray now place h
    exact dealRecord_ordered h stray now place
  · intro q hexact hvalue
    have hrank : (fun a b : {d : DealInfo // d.OnDate X} => dayLt q a b = true) =
        Order.Preimage (fun d : {d : DealInfo // d.OnDate X} => exactRank X d) (· < ·) := by
      funext a b
      exact propext (dayLt_exact_iff hpos hexact hvalue a.2 b.2)
    have hnat : IsStrictWeakOrder ℕ (· < ·) := isStrictWeakOrder_of_isOrderConnected
    rw [hrank]
    infer_instance
  · intro q order deals hexact hvalue horder hon
    have hone := answer_onePer .cheapestByDay q horder deals
    exact inOrder_of_ranks hpos (fun d hd => hon d (hone.mem d hd)) (answer_inOrder hpos hexact hvalue horder hon)
  · intro w query records result hexact hvalue hrecords hordered hresult
    obtain ⟨q, hpre⟩ : ∃ q, dayPreSearch { query with groupByReturnDate := false } = .ok q := by
      rw [execute_eq] at hresult
      obtain ⟨q, hpre, -⟩ := bind_eq_ok.1 hresult
      exact ⟨q, hpre⟩
    have hq := (dayPreSearch_plan hpre).1
    have hon := matching_onDate (w := w) hexact hordered
    rw [hvalue] at hon
    rw [daySearch_eq hpre hrecords hresult]
    have hone := answer_onePer .cheapestByDay { q with minTimestamp := minTimestamp w.globalExpireAt w.clock } w.orderPerm
      (matching w query records)
    have hranks := answer_inOrder (X := X) (q := { q with minTimestamp := minTimestamp w.globalExpireAt w.clock }) hpos
      (by rw [hq]; exact hexact) (by rw [hq]; exact hvalue) w.orderPerm hon
    -- the limit leaves a beginning of the sorted deals
    exact inOrder_of_ranks hpos (fun d hd => hon d (hone.mem d (List.mem_of_mem_take hd)))
      (hranks.sublist (List.take_sublist _ _))

theorem exactDate_ordered_june : ExactOrdered (june 15).code := exactDate_ordered ⟨june 15, june_valid.2.1, rfl⟩

end DealsServer
