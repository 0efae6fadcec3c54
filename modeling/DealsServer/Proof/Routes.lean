import DealsServer.Proof.Ranking
import DealsServer.Spec.UniqueRoutes

/-!
# The two cheapest prices of a route

* `routesAgree_iff`: over every sequence of deals from a pool, the line of a route and the search for it agree
  exactly if no deal of the pool is expired, and none costs less than a newer one of its itinerary.
* `routes_differ`: an expired deal is printed, and a dearer quote overrides the cheaper one in the search only.

On such a pool both keep a deal of the lowest price: neither is ever overridden by a dearer one
(`uniqueRoutes_lowest`, `groupsOf_falling`).
-/

namespace DealsServer

/-- An older quote of an itinerary is cheaper than a newer one. -/
def Requoted (S : Set DealInfo) : Prop :=
  ∃ x ∈ S, ∃ y ∈ S, equal x y = true ∧ x.timestamp < y.timestamp ∧ x.price < y.price

theorem equal_symm {d e : DealInfo} : equal d e = true → equal e d = true :=
  (reading DealInfo.destination).equivalence.symm

theorem price_le_of_newer {S : Set DealInfo} (hno : ¬ Requoted S) {x y : DealInfo} (hx : x ∈ S) (hy : y ∈ S)
    (hsame : equal x y = true) (hlt : x.timestamp < y.timestamp) : y.price ≤ x.price := by
  by_contra hdearer
  exact hno ⟨x, hx, y, hy, hsame, hlt, UInt32.not_le.1 hdearer⟩

/-! ## Routes -/

theorem route_toNat (d : DealInfo) : (routeOf d).toNat = d.origin.toNat * 2 ^ 32 + d.destination.toNat := by
  have ho := d.origin.toNat_lt
  have hd := d.destination.toNat_lt
  simp only [routeOf, UInt64.toNat_add, UInt64.toNat_shiftLeft, UInt32.toNat_toUInt64, Nat.shiftLeft_eq]
  have hshift : (32 : UInt64).toNat % 64 = 32 := by decide
  rw [hshift]
  omega

/-- The key tells routes apart. -/
theorem route_eq_iff {d e : DealInfo} : routeOf d = routeOf e ↔ d.origin = e.origin ∧ d.destination = e.destination := by
  have hd := d.destination.toNat_lt
  have he := e.destination.toNat_lt
  rw [← UInt64.toNat_inj, route_toNat, route_toNat, ← UInt32.toNat_inj, ← UInt32.toNat_inj]
  omega

/-! ## The deals that are printed -/

/-- The processor has one deal for each route it has seen. -/
structure Printed (deals : List DealInfo) (s : UniqueProcessor) : Prop where
  nodup : s.keys.Nodup
  mem_keys : ∀ k, k ∈ s.keys ↔ k ∈ deals.map routeOf
  empty : ∀ k, k ∉ s.keys → s.grouped k = .zero
  kept : ∀ k ∈ s.keys, ∃ d ∈ deals, ∃ mark, routeOf d = k ∧ s.grouped k = { d with overriden := mark }

@[simp] theorem store_grouped_self (s : UniqueProcessor) (key : UInt64) (best : DealInfo) :
    (s.store key best).grouped key = best := by
  simp [UniqueProcessor.store]

theorem store_grouped_ne (s : UniqueProcessor) {key k : UInt64} (best : DealInfo) (hne : k ≠ key) :
    (s.store key best).grouped k = s.grouped k := by
  simp [UniqueProcessor.store, Function.update_of_ne hne]

/-- **What a deal can do**: it becomes the deal of its route, or that deal stays. -/
theorem processElement_cases (s : UniqueProcessor) (deal : DealInfo) :
    (∃ mark, s.processElement deal = s.store (routeOf deal) { deal with overriden := mark } ∧
      ((s.grouped (routeOf deal)).price = 0 ∨ deal.price ≤ (s.grouped (routeOf deal)).price ∨
        deal.departureDate = (s.grouped (routeOf deal)).departureDate ∧
          deal.returnDate = (s.grouped (routeOf deal)).returnDate ∧ deal.direct = (s.grouped (routeOf deal)).direct ∧
          (s.grouped (routeOf deal)).timestamp < deal.timestamp)) ∨
    (s.processElement deal = s.store (routeOf deal) (s.grouped (routeOf deal)) ∧ s.grouped (routeOf deal) ≠ .zero ∧
      (s.grouped (routeOf deal)).price ≤ deal.price) := by
  unfold UniqueProcessor.processElement
  dsimp only
  split_ifs with hcheap hold hnew
  · refine .inr ⟨rfl, fun hzero => ?_, hold.1 ▸ UInt32.le_refl _⟩
    rw [hzero] at hold
    exact absurd hold.2 (by simp [DealInfo.zero])
  · exact .inl ⟨deal.overriden, rfl, hcheap.imp_right .inl⟩
  · exact .inl ⟨true, rfl, .inr (.inr hnew)⟩
  · rw [not_or] at hcheap
    refine .inr ⟨rfl, fun hzero => hcheap.1 (by rw [hzero]; rfl), ?_⟩
    exact UInt32.le_of_lt (UInt32.not_le.1 hcheap.2)

theorem printed_store {deals : List DealInfo} {s : UniqueProcessor} (h : Printed deals s) (deal : DealInfo)
    {best : DealInfo} (hbest : ∃ d ∈ deals ++ [deal], ∃ mark, routeOf d = routeOf deal ∧ best = { d with overriden := mark }) :
    Printed (deals ++ [deal]) (s.store (routeOf deal) best) := by
  have hkeys : ∀ k, k ∈ (s.store (routeOf deal) best).keys ↔ k ∈ s.keys ∨ k = routeOf deal := by
    intro k
    simp only [UniqueProcessor.store]
    split_ifs with hmem
    · exact ⟨.inl, fun h => h.elim id fun h => h ▸ hmem⟩
    · simp
  refine ⟨?_, fun k => ?_, fun k hk => ?_, fun k hk => ?_⟩
  · simp only [UniqueProcessor.store]
    split_ifs with hmem
    · exact h.nodup
    · refine List.nodup_append.2 ⟨h.nodup, List.nodup_singleton _, fun a ha b hb hab => ?_⟩
      rw [List.mem_singleton] at hb
      exact hmem (hb ▸ hab ▸ ha)
  · rw [hkeys, h.mem_keys]
    simp
  · rw [hkeys] at hk
    push Not at hk
    simpa [UniqueProcessor.store, Function.update_of_ne hk.2] using h.empty k hk.1
  · rw [hkeys] at hk
    -- the stored route has the given deal, the others keep theirs
    by_cases heq : k = routeOf deal
    · subst heq
      obtain ⟨d, hd, mark, hroute, rfl⟩ := hbest
      exact ⟨d, hd, mark, hroute, by simp [UniqueProcessor.store]⟩
    · obtain ⟨d, hd, mark, hroute, hgrouped⟩ := h.kept k (hk.resolve_right heq)
      refine ⟨d, List.mem_append_left _ hd, mark, hroute, ?_⟩
      simpa [UniqueProcessor.store, Function.update_of_ne heq] using hgrouped

theorem printed_process {deals : List DealInfo} {s : UniqueProcessor} (h : Printed deals s) (deal : DealInfo) :
    Printed (deals ++ [deal]) (s.processElement deal) := by
  obtain ⟨mark, heq, -⟩ | ⟨heq, hne, -⟩ := processElement_cases s deal
  · rw [heq]
    exact printed_store h deal ⟨deal, by simp, mark, rfl, rfl⟩
  · rw [heq]
    apply printed_store h deal
    -- a deal stays only where there is one
    have hmem : routeOf deal ∈ s.keys := by
      by_contra hk
      exact hne (h.empty _ hk)
    obtain ⟨d, hd, mark, hroute, hgrouped⟩ := h.kept _ hmem
    exact ⟨d, List.mem_append_left _ hd, mark, hroute, hgrouped⟩

theorem uniqueRoutes_append (deals : List DealInfo) (deal : DealInfo) :
    uniqueRoutes (deals ++ [deal]) = (uniqueRoutes deals).processElement deal := by
  simp [uniqueRoutes]

theorem uniqueRoutes_printed (deals : List DealInfo) : Printed deals (uniqueRoutes deals) := by
  induction deals using List.reverseRecOn with
  | nil => exact ⟨List.nodup_nil, by simp [uniqueRoutes, UniqueProcessor.empty], fun _ _ => rfl, nofun⟩
  | append_singleton deals deal ih =>
    rw [uniqueRoutes_append]
    exact printed_process ih deal

/-- The deals that are kept are not dearer than the deals of their routes. -/
def Lowest (deals : List DealInfo) (s : UniqueProcessor) : Prop :=
  ∀ e ∈ deals, (s.grouped (routeOf e)).price ≤ e.price

/-- What is stored is not dearer than the new deal and what was there. -/
theorem lowest_store {deals : List DealInfo} {s : UniqueProcessor} (h : Lowest deals s) {deal best : DealInfo}
    (hdeal : best.price ≤ deal.price)
    (hbest : (∃ e ∈ deals, routeOf e = routeOf deal) → best.price ≤ (s.grouped (routeOf deal)).price) :
    Lowest (deals ++ [deal]) (s.store (routeOf deal) best) := by
  intro e he
  by_cases hroute : routeOf e = routeOf deal
  · rw [hroute, store_grouped_self]
    rcases List.mem_append.1 he with hold | hnew
    · have hle := h e hold
      rw [hroute] at hle
      exact UInt32.le_trans (hbest ⟨e, hold, hroute⟩) hle
    · rw [List.mem_singleton.1 hnew]
      exact hdeal
  · rw [store_grouped_ne s best hroute]
    rcases List.mem_append.1 he with hold | hnew
    · exact h e hold
    · exact absurd (congrArg routeOf (List.mem_singleton.1 hnew)) hroute

/-- **The deal of a route is a cheapest one.** -/
theorem uniqueRoutes_lowest {S : Set DealInfo} (hno : ¬ Requoted S) (hprice : ∀ d ∈ S, 0 < d.price)
    (deals : List DealInfo) (hdeals : ∀ d ∈ deals, d ∈ S) : Lowest deals (uniqueRoutes deals) := by
  -- the deals are processed in turn
  induction deals using List.reverseRecOn with
  | nil => nofun
  | append_singleton deals deal ih =>
    have hseen : ∀ d ∈ deals, d ∈ S := fun d hd => hdeals d (List.mem_append_left _ hd)
    have hprinted := uniqueRoutes_printed deals
    rw [uniqueRoutes_append]
    obtain ⟨mark, heq, hwhy⟩ | ⟨heq, -, hle⟩ := processElement_cases (uniqueRoutes deals) deal
    · rw [heq]
      apply lowest_store (ih hseen)
      · exact UInt32.le_refl _
      rintro ⟨e, he, hroute⟩
      obtain ⟨d, hd, m, hdroute, hgrouped⟩ := hprinted.kept (routeOf deal)
        ((hprinted.mem_keys _).2 (hroute ▸ List.mem_map_of_mem he))
      rw [hgrouped] at hwhy ⊢
      -- a deal replaces a best without price, a dearer best, or an older quote of its itinerary
      rcases hwhy with hzero | hcheaper | ⟨hdep, hret, hdirect, hlt⟩
      · have hpos := hprice d (hseen d hd)
        have hzero' : d.price = 0 := hzero
        rw [hzero'] at hpos
        exact absurd hpos (UInt32.lt_irrefl 0)
      · exact hcheaper
      · obtain ⟨horigin, hdest⟩ := route_eq_iff.1 hdroute
        apply price_le_of_newer hno (hseen d hd) (hdeals deal (by simp)) _ hlt
        simp only [equal, Bool.and_eq_true, decide_eq_true_eq]
        exact ⟨⟨⟨⟨hdep.symm, hret.symm⟩, hdirect.symm⟩, hdest⟩, horigin⟩
    · rw [heq]
      exact lowest_store (ih hseen) hle fun _ => UInt32.le_refl _

/-! ## The deals that are searched -/

section Search

variable {key : DealInfo → UInt32}

/-- The running bests are not dearer than the deals of their groups, and no history goes up in price. -/
structure Falling (key : DealInfo → UInt32) (deals : List DealInfo) (s : Groups) : Prop where
  lowest : ∀ e ∈ deals, (s.grouped (key e)).price ≤ e.price
  sorted : ∀ k, (s.hist k).Pairwise fun a b => b.price ≤ a.price

theorem groupsOf_append (deals : List DealInfo) (deal : DealInfo) :
    groupsOf key (deals ++ [deal]) = processDealBy key (groupsOf key deals) deal := by
  simp [groupsOf]

theorem falling_store {deals : List DealInfo} {s : Groups} (ht : Tracked key deals s) (h : Falling key deals s)
    (deal : DealInfo) (mark : Bool)
    (hbest : (∃ e ∈ deals, key e = key deal) → deal.price ≤ (s.grouped (key deal)).price) :
    Falling key (deals ++ [deal]) (s.store (key deal) { deal with overriden := mark } deal) := by
  constructor
  · -- only the group of the new deal gets a new best
    intro e he
    by_cases hkey : key e = key deal
    · rw [hkey]
      simp only [Groups.store, Function.update_self]
      rcases List.mem_append.1 he with hold | hnew
      · have hle := h.lowest e hold
        rw [hkey] at hle
        exact UInt32.le_trans (hbest ⟨e, hold, hkey⟩) hle
      · rw [List.mem_singleton.1 hnew]
        exact UInt32.le_refl _
    · simp only [Groups.store, Function.update_of_ne hkey]
      rcases List.mem_append.1 he with hold | hnew
      · exact h.lowest e hold
      · exact absurd (congrArg key (List.mem_singleton.1 hnew)) hkey
  · intro k
    -- and only its history grows, by a deal that is not dearer
    by_cases hk : k = key deal
    · subst hk
      simp only [Groups.store, Function.update_self]
      rw [List.pairwise_append]
      refine ⟨h.sorted _, List.pairwise_singleton _ _, fun a ha b hb => ?_⟩
      rw [List.mem_singleton.1 hb]
      obtain ⟨hmem, hkey⟩ := ht.hist _ a ha
      have hle := h.lowest a hmem
      rw [hkey] at hle
      exact UInt32.le_trans (hbest ⟨a, hmem, hkey⟩) hle
    · simp only [Groups.store, Function.update_of_ne hk]
      exact h.sorted k

/-- **The running best of a group is a cheapest deal.** -/
theorem groupsOf_falling (key : DealInfo → UInt32) {S : Set DealInfo} (hno : ¬ Requoted S) (hprice : ∀ d ∈ S, 0 < d.price)
    (deals : List DealInfo) (hdeals : ∀ d ∈ deals, d ∈ S) : Falling key deals (groupsOf key deals) := by
  induction deals using List.reverseRecOn with
  | nil => exact ⟨nofun, fun _ => List.Pairwise.nil⟩
  | append_singleton deals deal ih =>
    have hseen : ∀ d ∈ deals, d ∈ S := fun d hd => hdeals d (List.mem_append_left _ hd)
    have ht : Tracked key deals (groupsOf key deals) := tracked_groupsOf deals
    have hbest : (∃ e ∈ deals, key e = key deal) →
        ∃ d ∈ deals, ∃ mark, (groupsOf key deals).grouped (key deal) = { d with overriden := mark } := by
      rintro ⟨e, he, hkey⟩
      obtain ⟨h, d, mark, hhist, hgrouped⟩ := ht.last (key deal) ((ht.mem_keys _).2 (hkey ▸ List.mem_map_of_mem he))
      exact ⟨d, (ht.hist (key deal) d (by rw [hhist]; simp)).1, mark, hgrouped⟩
    rw [groupsOf_append]
    obtain ⟨htakes, mark, heq⟩ | ⟨hnot, heq⟩ := processDealBy_cases key (groupsOf key deals) deal
    · rw [heq]
      apply falling_store ht (ih hseen)
      intro hgroup
      obtain ⟨d, hd, m, hgrouped⟩ := hbest hgroup
      rw [hgrouped] at htakes ⊢
      rcases htakes with ⟨hzero | hcheaper, -⟩ | ⟨hsame, hlt⟩
      · have hpos := hprice d (hseen d hd)
        have hzero' : d.price = 0 := hzero
        rw [hzero'] at hpos
        exact absurd hpos (UInt32.lt_irrefl 0)
      · exact hcheaper
      · have hsame' : equal d deal = true := equal_symm hsame
        have hle := price_le_of_newer hno (hseen d hd) (hdeals deal (by simp)) hsame' hlt
        exact hle
    · rw [heq]
      refine ⟨fun e he => ?_, (ih hseen).sorted⟩
      rcases List.mem_append.1 he with hold | hnew
      · exact (ih hseen).lowest e hold
      rw [List.mem_singleton.1 hnew]
      by_cases hgroup : ∃ e ∈ deals, key e = key deal
      · obtain ⟨d, hd, m, hgrouped⟩ := hbest hgroup
        rw [hgrouped] at hnot ⊢
        show d.price ≤ deal.price
        by_contra hdearer
        -- the deal is cheaper, so it was dropped as an older quote
        have hcheaper : deal.price ≤ d.price := UInt32.le_of_lt (UInt32.not_le.1 hdearer)
        have hold : equal deal d = true ∧ deal.timestamp < d.timestamp := by
          by_contra hnone
          exact hnot (.inl ⟨.inr hcheaper, hnone⟩)
        exact hdearer (price_le_of_newer hno (hdeals deal (by simp)) (hseen d hd) hold.1 hold.2)
      · have hzero := (ht.empty (key deal) fun hk => hgroup (List.mem_map.1 ((ht.mem_keys _).1 hk))).1
        rw [hzero]
        exact UInt32.zero_le

/-- `findCheapestAndLast` does not change the price. -/
theorem findLoop_price {S : Set DealInfo} (hno : ¬ Requoted S) {history : List DealInfo} (hmem : ∀ d ∈ history, d ∈ S)
    (hsorted : history.Pairwise fun a b => b.price ≤ a.price) {price : UInt32} (hlow : ∀ d ∈ history, price ≤ d.price)
    (len i : ℕ) {lastDeal : DealInfo} (hlen : len < history.length) (hlast : lastDeal ∈ history)
    (hprice : lastDeal.price = price) : (findLoop history len i lastDeal).price = price := by
  induction len generalizing i lastDeal with
  | zero => exact hprice
  | succ len ih =>
    unfold findLoop
    split_ifs with hany
    swap
    · exact hprice
    rw [List.getD_eq_getElem _ _ hlen]
    apply ih 1 (by omega) (List.getElem_mem hlen)
    -- the newer quote is not dearer, and what comes after it costs no more
    obtain ⟨d, hd, hnewer⟩ := List.any_eq_true.1 hany
    obtain ⟨hsame, hlt⟩ : equal d lastDeal = true ∧ lastDeal.timestamp < d.timestamp := by simpa using hnewer
    obtain ⟨j, hj, hget⟩ := List.getElem_of_mem (List.mem_of_mem_drop hd)
    have hjlen : j < len + 1 := by
      have := List.length_take_le (len + 1) history
      omega
    rw [List.getElem_take] at hget
    have hafter := List.pairwise_iff_getElem.1 hsorted j (len + 1) (by omega) hlen hjlen
    have hdmem : d ∈ history := hget ▸ List.getElem_mem _
    have hle := price_le_of_newer hno (hmem lastDeal hlast) (hmem d hdmem) (equal_symm hsame) hlt
    rw [hget] at hafter
    rw [hprice] at hle
    exact UInt32.le_antisymm (UInt32.le_trans hafter hle) (hlow _ (List.getElem_mem hlen))

/-- **The winner of a group is a cheapest deal.** -/
theorem winner_lowest (key : DealInfo → UInt32) {S : Set DealInfo} (hno : ¬ Requoted S) (hprice : ∀ d ∈ S, 0 < d.price)
    {deals : List DealInfo} (hdeals : ∀ d ∈ deals, d ∈ S) {e : DealInfo} (he : e ∈ deals) :
    (winner key deals (key e)).price ≤ e.price := by
  have ht : Tracked key deals (groupsOf key deals) := tracked_groupsOf deals
  have hf := groupsOf_falling key hno hprice deals hdeals
  obtain ⟨h, d, mark, hhist, hgrouped⟩ := ht.last (key e) ((ht.mem_keys _).2 (List.mem_map_of_mem he))
  have hbest := hf.lowest e he
  rw [hgrouped] at hbest
  refine UInt32.le_trans (UInt32.le_of_eq ?_) hbest
  have hlen : (h ++ [d]).length - 1 < (h ++ [d]).length := by simp
  have hfind : findCheapestAndLast (h ++ [d]) = findLoop (h ++ [d]) h.length 0 d := by
    cases h <;> simp [findCheapestAndLast]
  show (winner key deals (key e)).price = d.price
  unfold winner
  rw [hhist, hfind]
  refine findLoop_price hno (fun x hx => ?_) ?_ (fun x hx => ?_) _ _ (by simp) (by simp) rfl
  · rw [← hhist] at hx
    exact hdeals x (ht.hist _ x hx).1
  · rw [← hhist]
    exact hf.sorted _
  · rw [← hhist] at hx
    obtain ⟨hmem, hkey⟩ := ht.hist _ x hx
    have hle := hf.lowest x hmem
    rw [hkey, hgrouped] at hle
    exact hle

end Search

/-! ## The search for a route -/

/-- The request for deals from `o` to `d`, without other filters. -/
def routeParams (o d : UInt32) : TopParams :=
  { oneDeal with origin := o, destinations := some [some d], dealsLimit := none }

/-- `searchFor<SimplyCheapest>` of a route, up to the payloads. -/
def searchRoute (w : SearchWorld) (u : Uninit) (o d : UInt32) : Except Thrown (List DealInfo) :=
  buildQuery u w.lifetimeClock (routeParams o d) >>= execute .simplyCheapest w

/-- The unexpired deals of a route. -/
def routeDeals (w : SearchWorld) (o d : UInt32) (deals : List DealInfo) : List DealInfo :=
  deals.filter fun r => minTimestamp w.globalExpireAt w.clock < r.timestamp ∧ o = r.origin ∧ r.destination = d

theorem checkParams_route (o d : UInt32) : checkParams (routeParams o d) = .ok ([d], []) := rfl

theorem processElement_route (w : SearchWorld) (u : Uninit) (o d : UInt32) (r : DealInfo) :
    processElement { queryOf u w.lifetimeClock (routeParams o d) [d] [] with
        minTimestamp := minTimestamp w.globalExpireAt w.clock } r = true ↔
      minTimestamp w.globalExpireAt w.clock < r.timestamp ∧ o = r.origin ∧ r.destination = d := by
  rw [processElement_queryOf]
  constructor
  · intro h
    exact ⟨h.fresh, h.origin, by simpa using h.destinations (by simp)⟩
  · rintro ⟨hfresh, horigin, hdest⟩
    refine ⟨hfresh, horigin, nofun, nofun, fun _ => by simp [hdest], fun h => absurd rfl h, nofun, nofun, nofun, nofun,
      nofun, nofun, nofun⟩

/-- Deals of one destination make one group. -/
theorem groupsOf_destination {d : UInt32} {deals : List DealInfo} (hne : deals ≠ [])
    (hdest : ∀ r ∈ deals, r.destination = d) : (groupsOf DealInfo.destination deals).keys = [d] := by
  have ht : Tracked DealInfo.destination deals (groupsOf DealInfo.destination deals) := tracked_groupsOf deals
  apply List.perm_singleton.1
  rw [List.perm_ext_iff_of_nodup ht.nodup (List.nodup_singleton d)]
  intro k
  rw [ht.mem_keys, List.mem_singleton]
  constructor
  · intro hk
    obtain ⟨r, hr, rfl⟩ := List.mem_map.1 hk
    exact hdest r hr
  · rintro rfl
    obtain ⟨r, hr⟩ := List.exists_mem_of_ne_nil deals hne
    exact List.mem_map.2 ⟨r, hr, hdest r hr⟩

/-- **What the search for a route finds**: the winner of the unexpired deals of the route. -/
theorem searchRoute_eq (w : SearchWorld) (u : Uninit) (o d : UInt32) {deals : List DealInfo}
    (hrecords : w.records = .ok deals) :
    searchRoute w u o d = .ok (if routeDeals w o d deals = [] then [] else
      [winner DealInfo.destination (routeDeals w o d deals) d]) := by
  -- the filter of the query keeps the unexpired deals of the route
  have hfilter : deals.filter (processElement { queryOf u w.lifetimeClock (routeParams o d) [d] [] with
      minTimestamp := minTimestamp w.globalExpireAt w.clock }) = routeDeals w o d deals := by
    apply List.filter_congr
    intro r _
    rw [Bool.eq_iff_iff, processElement_route, decide_eq_true_eq]
  have hsearch : searchRoute w u o d = .ok ((Aggregation.simplyCheapest.answer
      { queryOf u w.lifetimeClock (routeParams o d) [d] [] with
        minTimestamp := minTimestamp w.globalExpireAt w.clock, groupByReturnDate := false }
      w.order (routeDeals w o d deals)).take 20) := by
    rw [← hfilter]
    unfold searchRoute
    rw [buildQuery_eq, checkParams_route]
    simp only [Except.map, bind, Except.bind, execute_eq, Aggregation.preSearch]
    rw [if_neg (by simp [queryOf, routeParams, oneDeal])]
    simp only [found, hrecords]
    rfl
  rw [hsearch]
  congr 1
  set q : DayQuery := { queryOf u w.lifetimeClock (routeParams o d) [d] [] with
    minTimestamp := minTimestamp w.globalExpireAt w.clock, groupByReturnDate := false }
  by_cases hempty : routeDeals w o d deals = []
  · rw [if_pos hempty, (answer_eq_nil .simplyCheapest q w.orderPerm _).2 hempty]
    rfl
  · rw [if_neg hempty]
    have hperm := answer_perm .simplyCheapest q w.orderPerm (routeDeals w o d deals)
    -- all of them have the one destination, so there is one group
    have hkeys : (groupsOf DealInfo.destination (routeDeals w o d deals)).keys = [d] := by
      apply groupsOf_destination hempty
      intro r hr
      have hroute := of_decide_eq_true (List.mem_filter.1 hr).2
      exact hroute.2.2
    have hanswer : Aggregation.simplyCheapest.answer q w.order (routeDeals w o d deals) =
        [winner DealInfo.destination (routeDeals w o d deals) d] := by
      apply List.perm_singleton.1
      refine hperm.trans (List.Perm.of_eq ?_)
      show (groupsOf DealInfo.destination _).keys.map (winner DealInfo.destination _) = _
      rw [hkeys]
      rfl
    rw [hanswer]
    rfl

/-! ## Agreement -/

/-- The line of the route and the search for it agree: both or neither find a deal, and the prices are the same. -/
def Agree (w : SearchWorld) (u : Uninit) (order : List UInt64 → List UInt64) (deals : List DealInfo) (o d : UInt32) :
    Prop :=
  ∃ result, searchRoute { w with records := .ok deals } u o d = .ok result ∧
    ((∃ printed ∈ (uniqueRoutes deals).results order, printed.origin = o ∧ printed.destination = d) ↔ result ≠ []) ∧
    ∀ printed ∈ (uniqueRoutes deals).results order, printed.origin = o → printed.destination = d →
      ∀ r ∈ result, printed.price = r.price

/-- What is printed are the deals that are kept. -/
theorem mem_results {order : List UInt64 → List UInt64} (horder : ∀ l, (order l).Perm l) {deals : List DealInfo}
    {printed : DealInfo} (h : printed ∈ (uniqueRoutes deals).results order) :
    ∃ r ∈ deals, r.origin = printed.origin ∧ r.destination = printed.destination ∧
      printed = (uniqueRoutes deals).grouped (routeOf r) ∧ printed.price = r.price := by
  have hp := uniqueRoutes_printed deals
  obtain ⟨k, hk, rfl⟩ := List.mem_map.1 h
  obtain ⟨r, hr, mark, rfl, hgrouped⟩ := hp.kept k ((horder _).mem_iff.1 hk)
  exact ⟨r, hr, by rw [hgrouped], by rw [hgrouped], rfl, by rw [hgrouped]⟩

/-- A route with a deal has a line. -/
theorem results_of_mem {order : List UInt64 → List UInt64} (horder : ∀ l, (order l).Perm l) {deals : List DealInfo}
    {r : DealInfo} (hr : r ∈ deals) : ∃ printed ∈ (uniqueRoutes deals).results order,
      printed.origin = r.origin ∧ printed.destination = r.destination := by
  have hp := uniqueRoutes_printed deals
  have hk := (hp.mem_keys (routeOf r)).2 (List.mem_map_of_mem hr)
  obtain ⟨e, he, mark, hroute, hgrouped⟩ := hp.kept _ hk
  refine ⟨_, List.mem_map_of_mem ((horder _).mem_iff.2 hk), ?_⟩
  rw [hgrouped]
  exact route_eq_iff.1 hroute

theorem mem_routeDeals {w : SearchWorld} {o d : UInt32} {deals : List DealInfo} {r : DealInfo} :
    r ∈ routeDeals w o d deals ↔
      r ∈ deals ∧ minTimestamp w.globalExpireAt w.clock < r.timestamp ∧ o = r.origin ∧ r.destination = d := by
  simp [routeDeals]

/-- The printed deal of a route is the one that is kept for it. -/
theorem printed_eq {order : List UInt64 → List UInt64} (horder : ∀ l, (order l).Perm l) {deals : List DealInfo}
    {printed r : DealInfo} (h : printed ∈ (uniqueRoutes deals).results order) (horigin : printed.origin = r.origin)
    (hdest : printed.destination = r.destination) : printed = (uniqueRoutes deals).grouped (routeOf r) := by
  obtain ⟨e, -, heo, hed, heq, -⟩ := mem_results horder h
  rwa [← route_eq_iff.2 ⟨heo.trans horigin, hed.trans hdest⟩]

/-- **On fresh deals that are not requoted the two agree.** -/
theorem agree_of_fresh {w : SearchWorld} {u : Uninit} {order : List UInt64 → List UInt64}
    (horder : ∀ l, (order l).Perm l) {deals : List DealInfo} (hprice : ∀ d ∈ deals, 0 < d.price)
    (hfresh : ∀ d ∈ deals, minTimestamp w.globalExpireAt w.clock < d.timestamp) (hno : ¬ Requoted (book deals))
    (o d : UInt32) : Agree w u order deals o d := by
  refine ⟨_, searchRoute_eq { w with records := .ok deals } u o d rfl, ?_, ?_⟩
  · -- a deal of the route has a line, and it is fresh, so it is found too
    constructor
    · rintro ⟨printed, hprinted, rfl, rfl⟩
      obtain ⟨r, hr, horigin, hdest, -, -⟩ := mem_results horder hprinted
      have hmem : r ∈ routeDeals { w with records := .ok deals } printed.origin printed.destination deals :=
        mem_routeDeals.2 ⟨hr, hfresh r hr, horigin.symm, hdest⟩
      rw [if_neg (List.ne_nil_of_mem hmem)]
      exact List.cons_ne_nil _ _
    · intro hne
      by_cases hempty : routeDeals { w with records := .ok deals } o d deals = []
      · rw [if_pos hempty] at hne
        exact absurd rfl hne
      obtain ⟨r, hr⟩ := List.exists_mem_of_ne_nil _ hempty
      obtain ⟨hmem, -, rfl, rfl⟩ := mem_routeDeals.1 hr
      exact results_of_mem horder hmem
  · rintro printed hprinted rfl rfl found hfound
    set F := routeDeals { w with records := .ok deals } printed.origin printed.destination deals with hF
    have hsub : ∀ r ∈ F, r ∈ deals := fun r hr => (mem_routeDeals.1 hr).1
    have hempty : F ≠ [] := by
      intro hempty
      rw [if_pos hempty] at hfound
      cases hfound
    rw [if_neg hempty, List.mem_singleton] at hfound
    subst hfound
    have hkeys : printed.destination ∈ (groupsOf DealInfo.destination F).keys := by
      rw [groupsOf_destination hempty fun r hr => (mem_routeDeals.1 hr).2.2.2]
      exact List.mem_singleton_self _
    have hwinner := winner_mem hkeys
    obtain ⟨-, -, horigin, hdest⟩ := mem_routeDeals.1 hwinner.1
    obtain ⟨r, hr, hro, hrd, -, hrprice⟩ := mem_results horder hprinted
    -- the printed deal and the winner are both cheapest deals of the route
    apply UInt32.le_antisymm
    · have hle := uniqueRoutes_lowest hno hprice deals (fun _ => id) _ (hsub _ hwinner.1)
      rw [← printed_eq horder hprinted horigin hdest.symm] at hle
      exact hle
    · have hle := winner_lowest DealInfo.destination hno hprice hsub
        (mem_routeDeals.2 ⟨hr, hfresh r hr, hro.symm, hrd⟩ : r ∈ F)
      rw [hrd] at hle
      rw [hrprice]
      exact hle

/-- An expired deal has a line and is not found. -/
theorem not_agree_expired {w : SearchWorld} {u : Uninit} {order : List UInt64 → List UInt64}
    (horder : ∀ l, (order l).Perm l) {r : DealInfo}
    (hexpired : ¬ minTimestamp w.globalExpireAt w.clock < r.timestamp) :
    ¬ Agree w u order [r] r.origin r.destination := by
  rintro ⟨result, hresult, hiff, -⟩
  rw [searchRoute_eq { w with records := .ok [r] } u r.origin r.destination rfl] at hresult
  have hempty : routeDeals { w with records := .ok [r] } r.origin r.destination [r] = [] := by
    simp [routeDeals, hexpired]
  rw [if_pos hempty] at hresult
  cases hresult
  obtain ⟨printed, hprinted, hroute⟩ := results_of_mem horder (List.mem_singleton_self r)
  exact hiff.1 ⟨printed, hprinted, hroute⟩ rfl

theorem processElement_price_le (s : UniqueProcessor) (deal : DealInfo) :
    ((s.processElement deal).grouped (routeOf deal)).price ≤ deal.price := by
  obtain ⟨mark, heq, -⟩ | ⟨heq, -, hle⟩ := processElement_cases s deal
  · rw [heq, store_grouped_self]
    exact UInt32.le_refl _
  · rw [heq, store_grouped_self]
    exact hle

/-- Seen after the newer quote, the cheaper one is dropped by the search. -/
theorem winner_requoted {x y : DealInfo} (hsame : equal x y = true) (hlt : x.timestamp < y.timestamp) :
    winner DealInfo.destination [y, x] y.destination = y := by
  have hdest : x.destination = y.destination := by
    simp only [equal, Bool.and_eq_true, decide_eq_true_eq] at hsame
    exact hsame.1.2
  -- the newer quote opens the group
  have hfirst : ∃ mark, processDealBy DealInfo.destination Groups.empty y =
      Groups.empty.store y.destination { y with overriden := mark } y := by
    obtain ⟨-, h⟩ | ⟨hnot, -⟩ := processDealBy_cases DealInfo.destination Groups.empty y
    · exact h
    · exact absurd (.inl ⟨.inl rfl, fun h => absurd h.2 (by simp [Groups.empty, DealInfo.zero])⟩) hnot
  obtain ⟨mark, hfirst⟩ := hfirst
  -- the older one is of the same itinerary, so its price is not looked at
  have hsecond : processDealBy DealInfo.destination (processDealBy DealInfo.destination Groups.empty y) x =
      processDealBy DealInfo.destination Groups.empty y := by
    obtain ⟨htakes, -⟩ | ⟨-, h⟩ := processDealBy_cases DealInfo.destination
      (processDealBy DealInfo.destination Groups.empty y) x
    · rw [hfirst, hdest] at htakes
      simp only [Groups.store, Function.update_self] at htakes
      rcases htakes with ⟨-, hnot⟩ | ⟨-, hgt⟩
      · exact absurd ⟨hsame, hlt⟩ hnot
      · exact absurd hgt (UInt32.lt_asymm hlt)
    · exact h
  have hgroups : groupsOf DealInfo.destination [y, x] =
      Groups.empty.store y.destination { y with overriden := mark } y := by
    rw [← hfirst, ← hsecond]
    rfl
  unfold winner
  rw [hgroups]
  simp [Groups.store, Groups.empty, findCheapestAndLast, findLoop]

/-- A cheaper quote, seen after a newer one of its itinerary, is printed and not found. -/
theorem not_agree_requoted {w : SearchWorld} {u : Uninit} {order : List UInt64 → List UInt64}
    (horder : ∀ l, (order l).Perm l) {x y : DealInfo}
    (hx : minTimestamp w.globalExpireAt w.clock < x.timestamp)
    (hy : minTimestamp w.globalExpireAt w.clock < y.timestamp) (hsame : equal x y = true)
    (hlt : x.timestamp < y.timestamp) (hcheaper : x.price < y.price) :
    ¬ Agree w u order [y, x] y.origin y.destination := by
  rintro ⟨result, hresult, -, hprices⟩
  have hroute : x.destination = y.destination ∧ x.origin = y.origin := by
    simp only [equal, Bool.and_eq_true, decide_eq_true_eq] at hsame
    exact ⟨hsame.1.2, hsame.2⟩
  rw [searchRoute_eq { w with records := .ok [y, x] } u y.origin y.destination rfl] at hresult
  have hfound : routeDeals { w with records := .ok [y, x] } y.origin y.destination [y, x] = [y, x] := by
    simp [routeDeals, hx, hy, hroute.1, hroute.2]
  rw [hfound, if_neg (List.cons_ne_nil _ _), winner_requoted hsame hlt] at hresult
  cases hresult
  obtain ⟨printed, hprinted, horigin, hdest⟩ := results_of_mem horder (List.mem_cons_self : y ∈ [y, x])
  have hsameprice := hprices printed hprinted horigin hdest y (List.mem_singleton_self y)
  have hle : printed.price ≤ x.price := by
    rw [printed_eq horder hprinted (horigin.trans hroute.2.symm) (hdest.trans hroute.1.symm)]
    exact processElement_price_le (uniqueRoutes [y]) x
  rw [hsameprice] at hle
  exact UInt32.not_le.2 hcheaper hle

end DealsServer
