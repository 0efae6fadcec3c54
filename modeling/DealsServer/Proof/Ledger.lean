import DealsServer.Proof.AllOrNothing
import DealsServer.Proof.Shelf

/-!
# Answers and what was posted

A process that runs alone keeps a ledger, and hands it on when it restarts: the deals that were added since the last
clear, with their bodies, and the destinations that were counted, each with the time at which its lifetime ends.

* `Offered`: what a search may choose from.
* `Booked.getTop`: a search chooses from that by the plain algorithm, and returns its deals with their own bodies.
* `Booked.serve`, `booked_run`: the tables retain the ledger, whatever is requested.
-/

namespace DealsServer

open Retention StateMachine

/-! ## The ledger -/

/-- What a process has, the clock it has read last, its deals, and the destinations it has counted. -/
structure Ledger extends Session where
  counted : List (DstRecord × ℕ)

/-- When the record is too old for every search. -/
def DealInfo.ends (deal : DealInfo) : ℕ := deal.timestamp.toNat + dealsExpires.toNat

/-- The clocks of a request, in the order it reads them. Clocks that it does not come to read are taken to be in order
as well. -/
def Request.clocks (w : World) : Request → List ℕ
  | .addDeal _ _ => [w.data.releaseNow, w.data.now, w.timestampClock, w.index.releaseNow, w.index.now,
      w.dst.releaseNow, w.dst.now]
  | .getTop _ => [w.localeTop.lookupClock.toNat, w.dst.releaseNow, w.dst.now, w.localeTop.saveClock.toNat,
      w.lifetimeClock, w.searchClock, w.index.releaseNow, w.index.now]
  | .getUniqueRoutes | .getStats => [w.index.releaseNow, w.index.now]
  | .getDestiantionsTop _ => [w.localeTop.lookupClock.toNat, w.dst.releaseNow, w.dst.now, w.localeTop.saveClock.toNat]
  | .clear => []

/-- The destination that a request counts, unless it fails. -/
def Database.counts (db : Database) (w : World) (p : AddParams) (body : Bytes) : List (DstRecord × ℕ) :=
  match (db.add w p body).1 with
  | .ok _ => lasting (w.dst.now + topDstTable.lifetime 0) [⟨p.locale, p.destination, p.departureDate.code⟩]
  | .error _ => []

namespace Ledger

def init : Ledger := ⟨.init, []⟩

/-- A request, with what it adds or clears. -/
def serve (s : Ledger) (a : World × Request) : Ledger where
  db := (s.db.serve a.1 a.2).2
  clock := (a.2.clocks a.1).getLast?.getD s.clock
  created := match a.2 with
    | .addDeal params body =>
      match AddParams.parse params with
      | .ok p => s.created ++ (s.db.added a.1 p body).map fun info => (info, body)
      | .error _ => s.created
    | .clear => match (s.db.truncate a.1).1 with
      | .ok _ => []
      | .error _ => s.created
    | _ => s.created
  counted := match a.2 with
    | .addDeal params body =>
      match AddParams.parse params with
      | .ok p => s.counted ++ s.db.counts a.1 p body
      | .error _ => s.counted
    | .clear => match (s.db.clear a.1).1 with
      | .ok _ => []
      | .error _ => s.counted
    | _ => s.counted

/-- A body is stored in time for its record, and fits its word; `/clear` does not stop between the bodies and the
records. -/
def Careful (lead : ℕ) (s : Ledger) (w : World) : Request → Prop
  | .addDeal _ body => body.length < 2 ^ 32 ∧ w.timestampClock ≤ w.data.now + lead ∧
      (lead = 0 ∨ lead = 1 ∧ w.data.memLow = false)
  | .clear => (s.db.dataView.cleanup dealDataTable w.data).1 = none → (s.db.truncate w).1 = .ok ()
  | _ => True

/-- The clock does not go back and is far from its overflow, and all pages can be opened. -/
structure Timed (lead : ℕ) (s : Ledger) (a : World × Request) : Prop where
  ascending : (s.clock :: a.2.clocks a.1).Pairwise (· ≤ ·)
  fits : ∀ t ∈ a.2.clocks a.1, t + dealsExpires.toNat + removeExpiredPagesDelaySec < 2 ^ 32
  opens : ∀ name, a.1.index.opens name = .mapped ∧ a.1.data.opens name = .mapped ∧ a.1.dst.opens name = .mapped
  careful : s.Careful lead a.1 a.2

end Ledger

/-- A process serves a request, clears one of its databases, or ends, and another one starts. -/
inductive Event
  | request (w : World) (request : Request)
  | dealsClear (w : World)
  | destinationsClear (w : World)
  | restart

namespace Ledger

/-- The request `/deals/clear`. -/
def dealsClear (s : Ledger) (w : World) : Ledger where
  db := (s.db.truncate w).2
  clock := s.clock
  created := match (s.db.truncate w).1 with
    | .ok _ => []
    | .error _ => s.created
  counted := s.counted

/-- The request `/destinations/clear`. -/
def destinationsClear (s : Ledger) (w : World) : Ledger where
  db := (s.db.truncateDst w).2
  clock := s.clock
  created := s.created
  counted := match (s.db.truncateDst w).1 with
    | .ok _ => []
    | .error _ => s.counted

def step (s : Ledger) : Event → Ledger
  | .request w request => s.serve (w, request)
  | .dealsClear w => s.dealsClear w
  | .destinationsClear w => s.destinationsClear w
  | .restart => { s with db := s.db.restart }

/-- The conditions on an event. -/
def Proper (lead : ℕ) (s : Ledger) : Event → Prop
  | .request w request => s.Timed lead (w, request)
  | .dealsClear w => (∀ name, w.index.opens name = .mapped ∧ w.data.opens name = .mapped) ∧ s.Careful lead w .clear
  | .destinationsClear w => ∀ name, w.dst.opens name = .mapped
  | .restart => True

end Ledger

/-- `db_index` retains the records of the deals, each until it is too old at least. -/
def Listed (clock : ℕ) (deals : List DealInfo) (v : View DealInfo) : Prop :=
  ∃ log : List (DealInfo × ℕ), log.map Prod.fst = deals ∧ (∀ x ∈ log, x.1.ends ≤ x.2) ∧
    Stores dealInfoTable clock (log : Multiset (DealInfo × ℕ)) v

/-- The tables retain the ledger. -/
structure Booked (lead : ℕ) (s : Ledger) : Prop where
  linked : Linked lead s.toSession
  listed : Listed s.clock (s.created.map Prod.fst) s.db.indexView
  counted : Stores topDstTable s.clock (s.counted : Multiset (DstRecord × ℕ)) s.db.dbDst

theorem topDst_shortNames : ShortNames topDstTable := shortNames_of (by decide) (by decide)

theorem booked_init (lead : ℕ) : Booked lead .init :=
  ⟨linked_init lead, ⟨[], rfl, nofun, stores_init dealInfoTable 0⟩, stores_init topDstTable 0⟩

/-! ## Listed records -/

section Listed

variable {clock clock' : ℕ} {deals : List DealInfo} {v v' : View DealInfo}

theorem Listed.mono (h : Listed clock deals v) (hclock : clock ≤ clock') : Listed clock' deals v := by
  obtain ⟨log, hlog, hends, hstores⟩ := h
  exact ⟨log, hlog, hends, hstores.mono hclock⟩

theorem Listed.of_shared (h : Listed clock deals v) (hshared : v'.shared = v.shared) (hown : v'.own = v.own)
    (hglobal : v.globalExpireAt ≤ v'.globalExpireAt) : Listed clock deals v' := by
  obtain ⟨log, hlog, hends, hstores⟩ := h
  refine ⟨log, hlog, hends, hstores.of_shared hshared hglobal fun page hpage => ?_⟩
  rw [hown] at hpage
  exact hstores.current page hpage

/-- A record that is added is listed, unless `addRecord` fails. -/
theorem Listed.addRecord (h : Listed clock deals v) {c : Calls} (hopens : ∀ name, c.opens name = .mapped)
    {info : DealInfo} (hinfo : info.timestamp.toNat ≤ c.now) (hclock : clock ≤ c.now) (hrelease : c.releaseNow ≤ c.now)
    (hfits : c.now + dealsExpires.toNat + removeExpiredPagesDelaySec < 2 ^ 32) :
    (∃ err, (v.addRecord dealInfoTable c [info] 0).1 = .error err ∧
        Listed c.now deals (v.addRecord dealInfoTable c [info] 0).2) ∨
      ∃ place, (v.addRecord dealInfoTable c [info] 0).1 = .ok place ∧
        Listed c.now (deals ++ [info]) (v.addRecord dealInfoTable c [info] 0).2 := by
  obtain ⟨log, hlog, hends, hstores⟩ := h
  have hlive : 0 < c.now + dealInfoTable.lifetime 0 := Nat.lt_of_lt_of_le (by decide) (Nat.le_add_left _ c.now)
  obtain ⟨err, herr, hkept⟩ | ⟨place, hok, hmore⟩ :=
    hstores.addRecord dealInfo_shortNames hopens [info] hlive hfits hclock hrelease
  · exact .inl ⟨err, herr, log, hlog, hends, hkept⟩
  · refine .inr ⟨place, hok, log ++ lasting (c.now + dealInfoTable.lifetime 0) [info], ?_, fun x hx => ?_, hmore⟩
    · rw [List.map_append, lasting_fst, hlog]
    · rcases List.mem_append.1 hx with hx | hx
      · exact hends x hx
      · rw [lasting_snd hx]
        obtain ⟨info', hinfo', rfl⟩ := List.mem_map.1 hx
        rw [List.mem_singleton.1 hinfo']
        exact Nat.add_le_add_right hinfo _

/-- **A scan of `db_index`** delivers the deals that are not over, and nothing that was not added. -/
theorem Listed.processRecords (h : Listed clock deals v) {c : Calls} (hopens : ∀ name, c.opens name = .mapped)
    (hclock : clock ≤ c.now) (hrelease : c.releaseNow ≤ c.now) :
    Listed c.now deals (v.processRecords dealInfoTable c).2 ∧
      ∀ elements, (v.processRecords dealInfoTable c).1 = .ok elements →
        Retains DealInfo.ends (max c.now v.globalExpireAt) (elements : Multiset DealInfo) deals := by
  obtain ⟨log, rfl, hends, hstores⟩ := h
  obtain ⟨hkept, -, hread⟩ := hstores.processRecords dealInfo_shortNames hopens hclock hrelease
  refine ⟨⟨log, rfl, hends, hkept⟩, fun elements hok => ?_⟩
  obtain ⟨kept, hretains, helements⟩ := hread elements hok
  rw [helements, ← Multiset.map_coe]
  exact hretains.map Prod.fst hends

/-- A `cleanup` leaves nothing listed, unless it fails. -/
theorem Listed.cleanup (h : Listed clock deals v) {c : Calls} (hopens : ∀ name, c.opens name = .mapped) :
    (∃ err, v.cleanup dealInfoTable c = (some err, v)) ∨
      ∃ w, v.cleanup dealInfoTable c = (none, w) ∧ w.globalExpireAt = v.globalExpireAt ∧ Listed clock [] w := by
  obtain ⟨log, -, -, hstores⟩ := h
  obtain ⟨err, hfail⟩ | ⟨hdone, hglobal, hempty⟩ := hstores.cleanup dealInfo_shortNames hopens
  · exact .inl ⟨err, hfail⟩
  · exact .inr ⟨_, Prod.ext hdone rfl, hglobal, [], rfl, nofun, hempty⟩

end Listed

/-! ## Adding deals -/

section Steps

variable {lead : ℕ}

/-- `addDeal` lists the record it adds. -/
theorem Listed.addDeal {s : Session} (hlinked : Linked lead s) (h : Listed s.clock (s.created.map Prod.fst) s.db.indexView)
    {w : World} {p : AddParams} {body : Bytes} (htimed : s.Timed (.addDeal w p body)) :
    Listed w.index.now ((s.step (.addDeal w p body)).created.map Prod.fst)
      (s.step (.addDeal w p body)).db.indexView := by
  obtain ⟨hc1, hc2, hc3, hc4, hc5, hfits⟩ := htimed.addDeal
  have hearlyData : w.data.now + dealDataTable.lifetime 0 + removeExpiredPagesDelaySec < 2 ^ 32 := by
    show w.data.now + dealsExpires.toNat + removeExpiredPagesDelaySec < 2 ^ 32
    omega
  have hopens (name : Bytes) : w.data.opens name = .mapped := (htimed.opens name).2
  have hopensIndex (name : Bytes) : w.index.opens name = .mapped := (htimed.opens name).1
  obtain ⟨hraised, -⟩ := hlinked.data.addRecord_global hlinked.dataCurrent dealData_shortNames hopens
    (body.take (body.length % 2 ^ 32)) hearlyData hlinked.global
  show Listed w.index.now ((s.created ++ (s.db.added w p body).map fun info => (info, body)).map Prod.fst)
    (s.db.addDeal w p body).2.indexView
  unfold Database.added Database.addDeal
  rcases hadd : s.db.dataView.addRecord dealDataTable w.data (body.take (body.length % 2 ^ 32)) 0 with ⟨err | place, v₁⟩
  · rw [hadd] at hraised
    have hkept : Listed s.clock (s.created.map Prod.fst) (s.db.setData v₁).indexView := h.of_shared rfl rfl hraised
    simpa using hkept.mono (show s.clock ≤ w.index.now by omega)
  rw [hadd] at hraised
  dsimp only
  have hkept : Listed s.clock (s.created.map Prod.fst) (s.db.setData v₁).indexView := h.of_shared rfl rfl hraised
  set info := dealRecord w.stray w.timestampClock.toUInt32 place p with hinfo
  have htimestamp : info.timestamp.toNat ≤ w.index.now := by
    have hword : info.timestamp.toNat = w.timestampClock :=
      UInt32.toNat_ofNat_of_lt' (by show w.timestampClock < 2 ^ 32; omega)
    omega
  obtain ⟨err, herr, hlisted⟩ | ⟨place', hok, hlisted⟩ :=
    hkept.addRecord hopensIndex htimestamp (show s.clock ≤ w.index.now by omega) hc5 hfits
  · rcases hindex : (s.db.setData v₁).indexView.addRecord dealInfoTable w.index [info] 0 with ⟨res, v₂⟩
    rw [hindex] at herr hlisted
    cases herr
    show Listed w.index.now ((s.created ++ []).map Prod.fst) v₂
    rw [List.append_nil]
    exact hlisted
  · rcases hindex : (s.db.setData v₁).indexView.addRecord dealInfoTable w.index [info] 0 with ⟨res, v₂⟩
    rw [hindex] at hok hlisted
    cases hok
    show Listed w.index.now ((s.created ++ [(info, body)]).map Prod.fst) v₂
    rw [List.map_append]
    exact hlisted

/-- `db_dst` and its cache are linked to nothing. -/
theorem Linked.setDst {s : Session} (h : Linked lead s) (v : View DstRecord) (cache : ResultCache) :
    Linked lead ⟨{ s.db with dbDst := v, resultCache := cache }, s.clock, s.created⟩ :=
  ⟨h.index, h.indexCurrent, h.data, h.dataCurrent, h.listed, h.lasts, h.global⟩

variable {s : Ledger} {w : World}

/-- The clock does not go back over a request. -/
theorem Ledger.Timed.clock_le {request : Request} (h : s.Timed lead (w, request)) :
    s.clock ≤ (s.serve (w, request)).clock := by
  show s.clock ≤ (request.clocks w).getLast?.getD s.clock
  rcases hlast : (request.clocks w).getLast? with _ | t
  · exact le_rfl
  · exact (List.pairwise_cons.1 h.ascending).1 t (List.mem_of_getLast? hlast)

/-- What stays as it was is booked at a later clock. -/
theorem Booked.advance (h : Booked lead s) {clock' : ℕ} (hclock : s.clock ≤ clock') :
    Booked lead ⟨⟨s.db, clock', s.created⟩, s.counted⟩ :=
  ⟨h.linked.advance hclock, h.listed.mono hclock, h.counted.mono hclock⟩

theorem Ledger.Timed.addDeal {params : ObjectMap} {body : Bytes} (h : s.Timed lead (w, .addDeal params body)) (p : AddParams) :
    s.toSession.Timed (.addDeal w p body) ∧ w.index.now ≤ w.dst.releaseNow ∧ w.dst.releaseNow ≤ w.dst.now ∧
      w.dst.now + dealsExpires.toNat + removeExpiredPagesDelaySec < 2 ^ 32 := by
  refine ⟨⟨h.ascending.sublist (List.sublist_append_left _ [w.dst.releaseNow, w.dst.now]), fun t ht => ?_,
    fun name => ⟨(h.opens name).1, (h.opens name).2.1⟩⟩, ?_⟩
  · exact h.fits t (List.mem_append_left [w.dst.releaseNow, w.dst.now] ht)
  · have hascending := h.ascending
    simp only [Request.clocks, List.pairwise_cons, List.mem_cons, forall_eq_or_imp] at hascending
    obtain ⟨-, -, -, -, -, ⟨h1, -⟩, ⟨h2, -⟩, -⟩ := hascending
    exact ⟨h1, h2, h.fits _ (by simp [Request.clocks])⟩

/-- **A request that adds a deal** is booked. -/
theorem Booked.addDeal (h : Booked lead s) {params : ObjectMap} {body : Bytes}
    (htimed : s.Timed lead (w, .addDeal params body)) : Booked lead (s.serve (w, .addDeal params body)) := by
  have hclock := htimed.clock_le
  unfold Ledger.serve Database.serve
  dsimp only
  rcases hparse : AddParams.parse params with e | p
  · exact h.advance hclock
  obtain ⟨hsession, hc1, hc2, hfits⟩ := htimed.addDeal p
  have hlinked := h.linked.addDeal hsession htimed.careful
  have hlisted := Listed.addDeal h.linked h.listed hsession
  dsimp only
  -- the deal, then the destination
  show Booked lead ⟨⟨(s.db.add w p body).2, w.dst.now,
    s.created ++ (s.db.added w p body).map fun info => (info, body)⟩, s.counted ++ s.db.counts w p body⟩
  have hdst := Database.addDeal_dbDst s.db w p body
  have hdealt : Linked lead ⟨(s.db.addDeal w p body).2, w.index.now,
    s.created ++ (s.db.added w p body).map fun info => (info, body)⟩ := hlinked
  have hindexed : Listed w.index.now ((s.created ++ (s.db.added w p body).map fun info => (info, body)).map Prod.fst)
    (s.db.addDeal w p body).2.indexView := hlisted
  have hclockDst : s.clock ≤ w.dst.now := by
    obtain ⟨h1, h2, h3, h4, h5, -⟩ := hsession.addDeal
    omega
  have hclockIndex : w.index.now ≤ w.dst.now := hc1.trans hc2
  have hopens (name : Bytes) : w.dst.opens name = .mapped := (htimed.opens name).2.2
  unfold Database.counts Database.add
  rcases hadd : s.db.addDeal w p body with ⟨err | ok, db'⟩
  · rw [hadd] at hdst hdealt hindexed
    dsimp only at hdst hdealt hindexed ⊢
    rw [List.append_nil]
    exact ⟨hdealt.advance hclockIndex, hindexed.mono hclockIndex, hdst ▸ h.counted.mono hclockDst⟩
  rw [hadd] at hdst hdealt hindexed
  dsimp only at hdst hdealt hindexed ⊢
  have hlive : 0 < w.dst.now + topDstTable.lifetime 0 := Nat.lt_of_lt_of_le (by decide) (Nat.le_add_left _ w.dst.now)
  have houtcome := h.counted.addRecord topDst_shortNames hopens [⟨p.locale, p.destination, p.departureDate.code⟩] hlive
    hfits hclockDst hc2
  rw [← hdst] at houtcome
  unfold Database.addDestination
  rcases hcount : db'.dbDst.addRecord topDstTable w.dst [⟨p.locale, p.destination, p.departureDate.code⟩] 0 with
    ⟨res, v⟩
  rw [hcount] at houtcome
  have hlinkedDst := (hdealt.advance hclockIndex).setDst v db'.resultCache
  obtain ⟨err, rfl, hkept⟩ | ⟨place, rfl, hmore⟩ := houtcome
  · dsimp only
    rw [List.append_nil]
    exact ⟨hlinkedDst, hindexed.mono hclockIndex, hkept⟩
  · exact ⟨hlinkedDst, hindexed.mono hclockIndex, hmore⟩

/-! ## Searches -/

/-- The deals that are not too old for the search. -/
def recent (deals : List DealInfo) (globalExpireAt : ℕ) (w : World) : List DealInfo :=
  deals.filter (Young globalExpireAt.toUInt32 w.searchClock.toUInt32)

/-- What a search is offered: recent deals, and of these all that are not over when it scans the table. Where the clock
has not moved since the search read it, these are all recent deals. -/
structure Offered (deals : List DealInfo) (globalExpireAt : ℕ) (w : World) (shown : List DealInfo) : Prop where
  retains : Retains DealInfo.ends (max w.index.now globalExpireAt) (shown : Multiset DealInfo)
    (recent deals globalExpireAt w : Multiset DealInfo)
  all : w.index.now = w.searchClock → shown.Perm (recent deals globalExpireAt w)

/-- What `execute` meets if the table delivers the records. -/
def Database.searchWorld (db : Database) (w : World) (records : List DealInfo) : SearchWorld where
  lifetimeClock := w.lifetimeClock.toUInt32
  clock := w.searchClock.toUInt32
  globalExpireAt := db.globalExpireAt.toUInt32
  records := .ok records
  order := w.order
  payload := fun _ => .error .other
  orderPerm := w.orderPerm

/-- What a scan delivers offers a search what it may choose from. -/
theorem offered_scan {deals elements : List DealInfo} {globalExpireAt : ℕ} {w : World}
    (hretains : Retains DealInfo.ends (max w.index.now globalExpireAt) (elements : Multiset DealInfo) deals)
    (hglobal : globalExpireAt < 2 ^ 32) (hclock : w.searchClock < 2 ^ 32) :
    Offered deals globalExpireAt w (recent elements globalExpireAt w) := by
  have hfilter := hretains.filter fun deal => Young globalExpireAt.toUInt32 w.searchClock.toUInt32 deal = true
  rw [Multiset.filter_coe, Multiset.filter_coe] at hfilter
  simp only [Bool.decide_eq_true] at hfilter
  refine ⟨hfilter, fun hsame => ?_⟩
  have hexact := hfilter.filter_eq (p := fun _ => True) fun deal hdeal _ => ?_
  · rwa [Multiset.filter_true, Multiset.filter_true, Multiset.coe_eq_coe] at hexact
  · -- a deal that is not too old is not over in the second in which the table is scanned
    obtain ⟨-, hyoung⟩ := List.mem_filter.1 (Multiset.mem_coe.1 hdeal)
    rw [hsame]
    exact young_not_over hglobal hclock (of_decide_eq_true hyoung)

/-- **A search chooses from what it is offered**, as the plain algorithm does. -/
theorem Listed.execute {clock : ℕ} {deals : List DealInfo} {db : Database} (h : Listed clock deals db.indexView)
    {w : World} (hopens : ∀ name, w.index.opens name = .mapped) (hclock : clock ≤ w.searchClock)
    (hrelease : w.searchClock ≤ w.index.releaseNow) (hnow : w.index.releaseNow ≤ w.index.now)
    (hword : w.searchClock < 2 ^ 32) (hglobal : db.globalExpireAt < 2 ^ 32) (agg : Aggregation) (q : SearchQuery) :
    Listed w.index.now deals (db.execute agg w q).2.indexView ∧
      ∀ found, (db.execute agg w q).1 = .ok found → ∃ shown, Offered deals db.globalExpireAt w shown ∧
        DealsServer.execute agg (db.searchWorld w shown) q = .ok found := by
  obtain ⟨hlisted, hread⟩ := h.processRecords hopens (hclock.trans (hrelease.trans hnow)) hnow
  unfold Database.execute
  rcases agg.preSearch { q with groupByReturnDate := false } with e | q'
  · exact ⟨h.mono (hclock.trans (hrelease.trans hnow)), nofun⟩
  dsimp only
  rcases hscan : db.indexView.processRecords dealInfoTable w.index with ⟨res, v⟩
  rw [hscan] at hlisted hread
  refine ⟨hlisted, fun found hfound => ?_⟩
  obtain ⟨elements, helements, -⟩ := execute_young hfound
  rcases res with err | records
  · cases helements
  refine ⟨_, offered_scan (hread records rfl) hglobal hword, ?_⟩
  rw [← hfound]
  have hyoung : (recent records db.globalExpireAt w).filter (Young db.globalExpireAt.toUInt32 w.searchClock.toUInt32) =
      records.filter (Young db.globalExpireAt.toUInt32 w.searchClock.toUInt32) := by
    unfold recent
    rw [List.filter_filter]
    exact List.filter_congr fun deal _ => Bool.and_self _
  exact execute_congr rfl rfl hyoung

/-- Reading bodies does not touch `global_expire_at`. -/
theorem fillLoop_global (opens : Bytes → OpenResult) (deals : List DealInfo) (v : View UInt8) :
    (Database.fillLoop opens deals v).2.globalExpireAt = v.globalExpireAt := by
  induction deals generalizing v with
  | nil => rfl
  | cons deal rest ih =>
    have hsame := (getPageByName_same v deal.pageName (opens deal.pageName)).global_eq
    unfold Database.fillLoop View.getElementData
    dsimp only
    rcases hget : v.getPageByName deal.pageName (opens deal.pageName) with ⟨err | o, v₁⟩
    · rw [hget] at hsame
      exact hsame
    rw [hget] at hsame
    have hrest := ih v₁
    dsimp only at hsame ⊢
    rcases hfill : Database.fillLoop opens rest v₁ with ⟨err | result, v₂⟩
    · rw [hfill] at hrest
      exact hrest.trans hsame
    · rw [hfill] at hrest
      exact hrest.trans hsame

/-- The records whose bodies `searchFor` returns, by the plain algorithm. -/
theorem Listed.searchFor {clock : ℕ} {deals : List DealInfo} {db : Database} (h : Listed clock deals db.indexView)
    {w : World} (hopens : ∀ name, w.index.opens name = .mapped) (hclock : clock ≤ w.searchClock)
    (hrelease : w.searchClock ≤ w.index.releaseNow) (hnow : w.index.releaseNow ≤ w.index.now)
    (hword : w.searchClock < 2 ^ 32) (hglobal : db.globalExpireAt < 2 ^ 32) (agg : Aggregation) (p : TopParams) :
    Listed w.index.now deals (db.searchFor agg w p).2.indexView ∧
      ∀ found, db.found agg w p = .ok found → ∃ q shown, buildQuery w.memory w.lifetimeClock.toUInt32 p = .ok q ∧
        Offered deals db.globalExpireAt w shown ∧ DealsServer.execute agg (db.searchWorld w shown) q = .ok found := by
  unfold Database.searchFor Database.found
  rcases hq : buildQuery w.memory w.lifetimeClock.toUInt32 p with e | q
  · exact ⟨h.mono (hclock.trans (hrelease.trans hnow)), nofun⟩
  obtain ⟨hlisted, hfound⟩ := h.execute hopens hclock hrelease hnow hword hglobal agg q
  dsimp only
  refine ⟨?_, fun found hok => ?_⟩
  · rcases hex : db.execute agg w q with ⟨e | deals', db'⟩
    · rw [hex] at hlisted
      exact hlisted
    · rw [hex] at hlisted
      exact hlisted.of_shared rfl rfl (fillLoop_global w.data.opens deals' db'.dataView).ge
  · obtain ⟨shown, hoffered, hexecute⟩ := hfound found hok
    exact ⟨q, shown, rfl, hoffered, hexecute⟩

/-- A search leaves `db_dst` and its cache alone. -/
theorem searchFor_dst (db : Database) (agg : Aggregation) (w : World) (p : TopParams) :
    (db.searchFor agg w p).2.dbDst = db.dbDst ∧ (db.searchFor agg w p).2.resultCache = db.resultCache := by
  unfold Database.searchFor
  rcases buildQuery w.memory w.lifetimeClock.toUInt32 p with e | q
  · exact ⟨rfl, rfl⟩
  dsimp only
  have hexecute : (db.execute agg w q).2.dbDst = db.dbDst ∧ (db.execute agg w q).2.resultCache = db.resultCache := by
    unfold Database.execute
    rcases agg.preSearch { q with groupByReturnDate := false } with e | q'
    · exact ⟨rfl, rfl⟩
    · exact ⟨rfl, rfl⟩
  rcases hex : db.execute agg w q with ⟨e | deals, db'⟩
  · rw [hex] at hexecute
    exact hexecute
  · rw [hex] at hexecute
    exact hexecute

/-! ## Requests -/

/-- What `getLocaleTop` adds to the destinations of a search. -/
def Database.localeTop (db : Database) (w : World) (p : TopParams) : Except Thrown (List UInt32) :=
  match p.locale with
  | none => .ok []
  | some locale =>
    (db.getLocaleTop w ⟨locale, p.departureDateFrom, p.departureDateTo, p.dealsLimit⟩).1.map
      (List.map DstInfo.destination)

/-- `getLocaleTop` may scan `db_dst`, and write its cache. -/
theorem getLocaleTop_frame (db : Database) (w : World) (args : LocaleTopArgs) :
    ∃ v cache, (db.getLocaleTop w args).2 = { db with dbDst := v, resultCache := cache } ∧
      (v = db.dbDst ∨ v = (db.dbDst.processRecords topDstTable w.dst).2) := by
  unfold Database.getLocaleTop
  dsimp only
  split_ifs
  · exact ⟨_, _, rfl, .inl rfl⟩
  rcases topDstQuery w.localeTop.memory args with e | q
  · exact ⟨_, _, rfl, .inl rfl⟩
  dsimp only
  rcases db.dbDst.processRecords topDstTable w.dst with ⟨err | records, v⟩
  · exact ⟨_, _, rfl, .inr rfl⟩
  · exact ⟨_, _, rfl, .inr rfl⟩

/-- The database after what the request asks `getLocaleTop` for. -/
def AfterLocaleTop (db : Database) (w : World) (request : Request) (db' : Database) : Prop :=
  db' = db ∨ ∃ args, request.localeTopArgs = some args ∧ db' = (db.getLocaleTop w args).2

theorem AfterLocaleTop.frame {db db' : Database} {w : World} {request : Request} (h : AfterLocaleTop db w request db') :
    ∃ v cache, db' = { db with dbDst := v, resultCache := cache } ∧
      (v = db.dbDst ∨ v = (db.dbDst.processRecords topDstTable w.dst).2) := by
  obtain rfl | ⟨args, -, rfl⟩ := h
  · exact ⟨_, _, rfl, .inl rfl⟩
  · exact getLocaleTop_frame db w args

/-- `getTop` fails, or it searches with the parameters of the request and the destinations of `getLocaleTop`. -/
theorem getTop_cases (db : Database) (w : World) (params : ObjectMap) :
    ∃ db', AfterLocaleTop db w (.getTop params) db' ∧
      ((∃ e, db.getTop w params = (.error e, db')) ∨
        ∃ p, TopParams.parse (db.localeTop w) params = .ok p ∧
          db.getTop w params = db'.searchFor p.aggregation w p) := by
  unfold Database.getTop TopParams.parse
  rcases hread : TopParams.read params with e | p
  · exact ⟨db, .inl rfl, .inl ⟨e, rfl⟩⟩
  simp only [bind, Except.bind]
  split_ifs with hbad hadd hlocale
  · exact ⟨db, .inl rfl, .inl ⟨_, rfl⟩⟩
  · rw [hlocale]
    exact ⟨db, .inl rfl, .inl ⟨_, rfl⟩⟩
  · rcases hl : p.locale with _ | locale
    · exact absurd hl hlocale
    have hargs : (Request.getTop params).localeTopArgs =
        some ⟨locale, p.departureDateFrom, p.departureDateTo, p.dealsLimit⟩ := by
      unfold Request.localeTopArgs
      dsimp only
      rw [hread]
      dsimp only
      rw [if_pos ⟨by simpa using hbad, hadd⟩, hl]
      rfl
    refine ⟨_, .inr ⟨_, hargs, rfl⟩, ?_⟩
    unfold Database.localeTop
    rw [hl]
    dsimp only
    rcases db.getLocaleTop w ⟨locale, p.departureDateFrom, p.departureDateTo, p.dealsLimit⟩ with ⟨e | result, db'⟩
    · exact .inl ⟨e, rfl⟩
    simp only [Except.map]
    rcases (result.map DstInfo.destination).foldlM IATACodes.addCode p.destinations with e | destinations
    · exact .inl ⟨e, rfl⟩
    · exact .inr ⟨{ p with destinations := destinations, locale := some locale }, rfl, rfl⟩
  · exact ⟨db, .inl rfl, .inr ⟨p, rfl, rfl⟩⟩

/-- The clocks of a search, in their order. -/
theorem Ledger.Timed.getTop {params : ObjectMap} (h : s.Timed lead (w, .getTop params)) (agg : Aggregation) (p : TopParams)
    (db : Database) :
    (⟨db, s.clock, s.created⟩ : Session).Timed (.searchFor agg w p) ∧ s.clock ≤ w.dst.now ∧ w.dst.releaseNow ≤ w.dst.now ∧
      w.dst.now ≤ w.index.now ∧ s.clock ≤ w.searchClock ∧ w.searchClock ≤ w.index.releaseNow ∧
      w.index.releaseNow ≤ w.index.now ∧ w.searchClock < 2 ^ 32 := by
  refine ⟨⟨h.ascending.sublist (.cons_cons s.clock (.cons _ (.cons _ (.cons _ (.cons _ (List.Sublist.refl _)))))),
    fun t ht => ?_, fun name => ⟨(h.opens name).1, (h.opens name).2.1⟩⟩, ?_⟩
  · exact h.fits t (List.mem_append_right
      [w.localeTop.lookupClock.toNat, w.dst.releaseNow, w.dst.now, w.localeTop.saveClock.toNat] ht)
  · have hascending := h.ascending
    simp only [Request.clocks, List.pairwise_cons, List.mem_cons, forall_eq_or_imp] at hascending
    obtain ⟨⟨-, -, h1, -, -, h2, -⟩, -, ⟨h3, -⟩, ⟨-, -, -, -, h4, -⟩, -, -, ⟨h5, -⟩, ⟨h6, -⟩, -⟩ := hascending
    have hfits := h.fits w.searchClock (by simp [Request.clocks])
    exact ⟨h1, h3, h4, h2, h5, h6, by omega⟩

/-- `db_dst` after `getLocaleTop`. -/
theorem Booked.scanDst (h : Booked lead s) (hopens : ∀ name, w.dst.opens name = .mapped) (hclock : s.clock ≤ w.dst.now)
    (hrelease : w.dst.releaseNow ≤ w.dst.now) {v : View DstRecord}
    (hv : v = s.db.dbDst ∨ v = (s.db.dbDst.processRecords topDstTable w.dst).2) :
    Stores topDstTable w.dst.now (s.counted : Multiset (DstRecord × ℕ)) v := by
  rcases hv with rfl | rfl
  · exact h.counted.mono hclock
  · exact (h.counted.processRecords topDst_shortNames hopens hclock hrelease).1

/-- **A search keeps the books**, and what it returns are recent deals, chosen by the plain algorithm, with the bodies
they were added with. -/
theorem Booked.getTop (h : Booked lead s) {params : ObjectMap} (htimed : s.Timed lead (w, .getTop params)) :
    Booked lead (s.serve (w, .getTop params)) ∧ ∀ result, (s.db.getTop w params).1 = .ok result →
      ∃ p q shown deals, TopParams.parse (s.db.localeTop w) params = .ok p ∧
        buildQuery w.memory w.lifetimeClock.toUInt32 p = .ok q ∧
        Offered (s.created.map Prod.fst) s.db.globalExpireAt w shown ∧
        DealsServer.execute p.aggregation (s.db.searchWorld w shown) q = .ok deals ∧
        List.Forall₂ (OwnBody s.created) deals result := by
  have hopens (name : Bytes) : w.index.opens name = .mapped := (htimed.opens name).1
  have hopensDst (name : Bytes) : w.dst.opens name = .mapped := (htimed.opens name).2.2
  obtain ⟨db', hafter, hcases⟩ := getTop_cases s.db w params
  obtain ⟨v, cache, rfl, hv⟩ := hafter.frame
  show Booked lead ⟨⟨(s.db.serve w (.getTop params)).2, w.index.now, s.created⟩, s.counted⟩ ∧ _
  rw [serve_getTop]
  obtain ⟨e, hfail⟩ | ⟨p, hp, hsearch⟩ := hcases
  · obtain ⟨-, hc1, hc2, hc3, -⟩ := htimed.getTop .simplyCheapest oneDeal s.db
    have hdst := h.scanDst hopensDst hc1 hc2 hv
    rw [hfail]
    exact ⟨⟨(h.linked.setDst v cache).advance (hc1.trans hc3), h.listed.mono (hc1.trans hc3), hdst.mono hc3⟩, nofun⟩
  obtain ⟨hsession, hc1, hc2, hc3, hc4, hc5, hc6, hword⟩ :=
    htimed.getTop p.aggregation p { s.db with dbDst := v, resultCache := cache }
  have hdst := h.scanDst hopensDst hc1 hc2 hv
  obtain ⟨hlinked, hbodies⟩ := (h.linked.setDst v cache).searchFor hsession
  have hlistedBefore : Listed s.clock (s.created.map Prod.fst)
    ({ s.db with dbDst := v, resultCache := cache } : Database).indexView := h.listed
  obtain ⟨hlisted, hfound⟩ := hlistedBefore.searchFor hopens hc4 hc5 hc6 hword h.linked.global p.aggregation p
  rw [hsearch]
  refine ⟨⟨hlinked, hlisted, ?_⟩, fun result hresult => ?_⟩
  · show Stores topDstTable w.index.now _ (({ s.db with dbDst := v, resultCache := cache } : Database).searchFor
      p.aggregation w p).2.dbDst
    rw [(searchFor_dst _ _ _ _).1]
    exact hdst.mono hc3
  · obtain ⟨deals, hdeals, hown⟩ := hbodies result hresult
    obtain ⟨q, shown, hq, hoffered, hexecute⟩ := hfound deals hdeals
    exact ⟨p, q, shown, deals, hp, hq, hoffered, hexecute, hown⟩

/-- The records of `db_index`, for statistics and routes. -/
theorem Booked.records (h : Booked lead s) (hopens : ∀ name, w.index.opens name = .mapped) (hclock : s.clock ≤ w.index.now)
    (hnow : w.index.releaseNow ≤ w.index.now) :
    Booked lead ⟨⟨(s.db.records w).2, w.index.now, s.created⟩, s.counted⟩ ∧
      ∀ records, (s.db.records w).1 = .ok records →
        Retains DealInfo.ends (max w.index.now s.db.globalExpireAt) (records : Multiset DealInfo)
          (s.created.map Prod.fst : Multiset DealInfo) := by
  obtain ⟨hlisted, hread⟩ := h.listed.processRecords hopens hclock hnow
  obtain ⟨hindex, hcur, hall, hsame, -⟩ :=
    h.linked.index.processRecords h.linked.indexCurrent dealInfo_shortNames hopens h.linked.listed
  refine ⟨⟨h.linked.setIndex hclock hindex hcur hall h.linked.lasts hsame.ge (hsame.trans_lt h.linked.global), hlisted,
    h.counted.mono hclock⟩, fun records hrecords => hread records ?_⟩
  unfold Database.records at hrecords
  dsimp only at hrecords
  rcases hscan : (s.db.indexView.processRecords dealInfoTable w.index).1 with err | elements
  · rw [hscan] at hrecords
    cases hrecords
  · rw [hscan] at hrecords
    cases hrecords
    rfl

/-- Clearing the deals keeps the books, if it does not stop between the bodies and the records. -/
theorem Booked.dealsClear (h : Booked lead s)
    (hopens : ∀ name, w.index.opens name = .mapped ∧ w.data.opens name = .mapped)
    (hwhole : (s.db.dataView.cleanup dealDataTable w.data).1 = none → (s.db.truncate w).1 = .ok ()) :
    Booked lead (s.dealsClear w) := by
  unfold Ledger.dealsClear
  obtain ⟨err, hdata⟩ | ⟨v, n, hdata, halone, hcur, hclean⟩ :=
    h.linked.data.cleanup h.linked.dataCurrent dealData_shortNames fun name => (hopens name).2
  · -- nothing was cleared
    have htruncate : s.db.truncate w = (.error err, s.db) := by
      unfold Database.truncate
      rw [hdata]
      rfl
    rw [htruncate]
    exact h
  have hglobal : v.globalExpireAt = s.db.globalExpireAt := hclean.clears.global_eq
  have hlisted : Listed s.clock (s.created.map Prod.fst) (s.db.setData v).indexView :=
    h.listed.of_shared rfl rfl hglobal.ge
  obtain ⟨err, hindex⟩ | ⟨u, hindex, hsame, hempty⟩ := hlisted.cleanup fun name => (hopens name).1
  · -- the records would be left without their bodies
    have hfail : (s.db.truncate w).1 = .error err := by
      unfold Database.truncate
      rw [hdata]
      dsimp only
      rw [hindex]
    rw [hwhole (by rw [hdata])] at hfail
    cases hfail
  have htruncate : s.db.truncate w = (.ok (), (s.db.setData v).setIndex u) := by
    unfold Database.truncate
    rw [hdata]
    dsimp only
    rw [hindex]
  have hbound : u.globalExpireAt < 2 ^ 32 := by
    rw [hsame]
    exact hglobal.trans_lt h.linked.global
  rw [htruncate]
  refine ⟨?_, hempty, h.counted⟩
  obtain ⟨log, hlog, -, hstores⟩ := hempty
  obtain rfl := List.map_eq_nil_iff.1 hlog
  exact ⟨hstores.alone, hstores.current, halone.of_shared rfl rfl rfl rfl fun page hpage => .inl hpage, hcur,
    hstores.allOf.mono fun _ ⟨x, hx, _⟩ => absurd hx (Multiset.notMem_zero x), nofun, hbound⟩

/-- Clearing the destinations keeps the books. -/
theorem Booked.destinationsClear (h : Booked lead s) (hopens : ∀ name, w.dst.opens name = .mapped) :
    Booked lead (s.destinationsClear w) := by
  unfold Ledger.destinationsClear Database.truncateDst
  obtain ⟨err, hdst⟩ | ⟨hdone, -, hstores⟩ := h.counted.cleanup topDst_shortNames hopens
  · rw [hdst]
    exact ⟨h.linked, h.listed, h.counted⟩
  · rcases hcleanup : s.db.dbDst.cleanup topDstTable w.dst with ⟨res, v⟩
    rw [hcleanup] at hdone hstores
    cases hdone
    exact ⟨h.linked.setDst v _, h.listed, hstores⟩

/-- `/clear` clears the deals, and then the destinations unless it has failed. -/
theorem serve_clear_ledger (s : Ledger) (w : World) :
    s.serve (w, .clear) = match (s.db.truncate w).1 with
      | .ok _ => (s.dealsClear w).destinationsClear w
      | .error _ => s.dealsClear w := by
  unfold Ledger.serve Ledger.destinationsClear Ledger.dealsClear
  rw [serve_clear]
  unfold Database.clear
  rcases s.db.truncate w with ⟨err | ok, db'⟩ <;> rfl

theorem Booked.clear (h : Booked lead s) (htimed : s.Timed lead (w, .clear)) : Booked lead (s.serve (w, .clear)) := by
  have hdeals := h.dealsClear (fun name => ⟨(htimed.opens name).1, (htimed.opens name).2.1⟩) htimed.careful
  rw [serve_clear_ledger]
  rcases (s.db.truncate w).1 with err | ok
  · exact hdeals
  · exact hdeals.destinationsClear fun name => (htimed.opens name).2.2

/-- The clocks of statistics and routes. -/
theorem Ledger.Timed.scan {request : Request} (h : s.Timed lead (w, request))
    (hclocks : request.clocks w = [w.index.releaseNow, w.index.now]) :
    s.clock ≤ w.index.now ∧ w.index.releaseNow ≤ w.index.now := by
  have hascending : (s.clock :: request.clocks w).Pairwise (· ≤ ·) := h.ascending
  rw [hclocks] at hascending
  simp only [List.pairwise_cons, List.mem_cons, forall_eq_or_imp] at hascending
  exact ⟨hascending.1.2.1, hascending.2.1.1⟩

/-- The clocks of `getLocaleTop`. -/
theorem Ledger.Timed.getDestiantionsTop {params : ObjectMap} (h : s.Timed lead (w, .getDestiantionsTop params)) :
    s.clock ≤ w.dst.now ∧ w.dst.releaseNow ≤ w.dst.now ∧ w.dst.now ≤ w.localeTop.saveClock.toNat := by
  have hascending := h.ascending
  simp only [Request.clocks, List.pairwise_cons, List.mem_cons, forall_eq_or_imp] at hascending
  obtain ⟨⟨-, -, h1, -⟩, -, ⟨h2, -⟩, ⟨h3, -⟩, -⟩ := hascending
  exact ⟨h1, h2, h3⟩

/-- **Every request keeps the books.** -/
theorem Booked.serve (h : Booked lead s) {a : World × Request} (htimed : s.Timed lead a) : Booked lead (s.serve a) := by
  obtain ⟨w, request⟩ := a
  have hopens (name : Bytes) : w.index.opens name = .mapped := (htimed.opens name).1
  cases request with
  | addDeal params body => exact h.addDeal htimed
  | getTop params => exact (h.getTop htimed).1
  | getUniqueRoutes =>
    obtain ⟨hclock, hnow⟩ := htimed.scan rfl
    exact (h.records hopens hclock hnow).1
  | getStats =>
    obtain ⟨hclock, hnow⟩ := htimed.scan rfl
    exact (h.records hopens hclock hnow).1
  | getDestiantionsTop params =>
    obtain ⟨hclock, hrelease, hsave⟩ := htimed.getDestiantionsTop
    show Booked lead ⟨⟨(s.db.serve w (.getDestiantionsTop params)).2, w.localeTop.saveClock.toNat, s.created⟩, s.counted⟩
    rw [serve_getDestiantionsTop]
    unfold Database.getDestiantionsTop
    rcases Database.readLocaleTopArgs params with e | args
    · exact h.advance (hclock.trans hsave)
    obtain ⟨v, cache, hframe, hv⟩ := getLocaleTop_frame s.db w args
    have hdst := h.scanDst (fun name => (htimed.opens name).2.2) hclock hrelease hv
    dsimp only
    rw [hframe]
    exact ⟨(h.linked.setDst v cache).advance (hclock.trans hsave), h.listed.mono (hclock.trans hsave), hdst.mono hsave⟩
  | clear => exact h.clear htimed

/-- **A process that starts finds the books as they were.** -/
theorem Booked.restart (h : Booked lead s) : Booked lead (s.step .restart) := by
  obtain ⟨hindex, -, hdata, -, hall, hlasts, hglobal⟩ := h.linked
  obtain ⟨log, hlog, hends, hstores⟩ := h.listed
  have hnone {P : Bytes × ℕ → Prop} (page : Bytes × ℕ) (hpage : page ∈ TableLocal.init.openedPagesList) :
      P page := absurd hpage List.not_mem_nil
  have hindexed : Stores dealInfoTable s.clock (log : Multiset (DealInfo × ℕ)) s.db.restart.indexView :=
    hstores.of_shared rfl le_rfl hnone
  have hcounted : Stores topDstTable s.clock (s.counted : Multiset (DstRecord × ℕ)) s.db.restart.dbDst :=
    h.counted.of_shared rfl le_rfl hnone
  exact ⟨⟨hindex.of_shared rfl rfl rfl rfl hnone, hnone, hdata.of_shared rfl rfl rfl rfl hnone, hnone, hall, hlasts,
    hglobal⟩, ⟨log, hlog, hends, hindexed⟩, hcounted⟩

theorem booked_run {as : List Event} (hproper : Always Ledger.step (Ledger.Proper lead) .init as) :
    Booked lead (run Ledger.step .init as) := by
  refine inv_run (Booked lead) (fun s a h ha => ?_) (booked_init lead) hproper
  cases a with
  | request w request => exact h.serve ha
  | dealsClear w => exact h.dealsClear ha.1 ha.2
  | destinationsClear w => exact h.destinationsClear ha
  | restart => exact h.restart

end Steps

end DealsServer
