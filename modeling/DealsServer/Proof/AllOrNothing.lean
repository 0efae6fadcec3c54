import DealsServer.Proof.LeftSlots
import DealsServer.Proof.LinkedTables

/-!
# Requests that fail

`POST /deals/add` writes to three tables in turn, and takes nothing back when a later write fails.

* `ordered_run`: `db_index` is in order whatever requests are served.
* `addDeal_failure`: a request that fails changes no later answer if it had nothing to take back, and leaves the deal
  if only the destination could not be counted.

A deal may be returned whose request was answered with an error, and a request that fails may take deals from later
searches.
-/

namespace DealsServer

open StateMachine Decimal

/-! ## The order of db_index -/

namespace Database

/-- Between requests `db_index` is in order. -/
def Ordered (db : Database) : Prop := Kempt dealInfoTable db.indexView

variable {db : Database}

theorem Ordered.of_index {db' : Database} (h : db.Ordered) (hindex : db'.dbIndex = db.dbIndex) : db'.Ordered :=
  Kempt.of_shared h (congrArg TableState.shared hindex)

theorem Ordered.setData (h : db.Ordered) (v : View UInt8) : (db.setData v).Ordered := h.of_index rfl

theorem Ordered.add (h : db.Ordered) {w : World} (p : AddParams) (body : Bytes)
    (hearly : w.index.now + dealsExpires.toNat + removeExpiredPagesDelaySec < 2 ^ 32) :
    (db.add w p body).2.Ordered := by
  have hdeal : (db.addDeal w p body).2.Ordered := by
    unfold addDeal
    rcases db.dataView.addRecord dealDataTable w.data (body.take (body.length % 2 ^ 32)) 0 with ⟨err | place, v⟩
    · exact h.setData v
    have hrecord : Kempt dealInfoTable ((db.setData v).indexView.addRecord dealInfoTable w.index
        [dealRecord w.stray w.timestampClock.toUInt32 place p] 0).2 :=
      (h.setData v).addRecord _ hearly
    dsimp only
    rcases hadd : (db.setData v).indexView.addRecord dealInfoTable w.index
      [dealRecord w.stray w.timestampClock.toUInt32 place p] 0 with ⟨err | place', v'⟩
    · rw [hadd] at hrecord
      exact hrecord
    · rw [hadd] at hrecord
      exact hrecord
  unfold Database.add
  rcases hadd : db.addDeal w p body with ⟨err | ok, db₁⟩
  · rw [hadd] at hdeal
    exact hdeal
  rw [hadd] at hdeal
  dsimp only
  unfold addDestination
  rcases db₁.dbDst.addRecord topDstTable w.dst [⟨p.locale, p.destination, p.departureDate.code⟩] 0 with ⟨err | place, v⟩
  · exact hdeal.of_index rfl
  · exact hdeal.of_index rfl

theorem Ordered.processRecords (h : db.Ordered) (c : Calls) :
    (db.setIndex (db.indexView.processRecords dealInfoTable c).2).Ordered :=
  Kempt.processRecords h c

theorem Ordered.records (h : db.Ordered) (w : World) : (db.records w).2.Ordered := h.processRecords w.index

theorem Ordered.searchFor (h : db.Ordered) (agg : Aggregation) (w : World) (p : TopParams) :
    (db.searchFor agg w p).2.Ordered := by
  unfold Database.searchFor
  rcases buildQuery w.memory w.lifetimeClock.toUInt32 p with e | q
  · exact h
  dsimp only
  have hexecute : (db.execute agg w q).2.Ordered := by
    unfold execute
    rcases agg.preSearch { q with groupByReturnDate := false } with e | q'
    · exact h
    · exact h.processRecords w.index
  rcases hex : db.execute agg w q with ⟨e | deals, db₁⟩
  · rw [hex] at hexecute
    exact hexecute
  · rw [hex] at hexecute
    exact hexecute.setData _

theorem getLocaleTop_index (db : Database) (w : World) (args : LocaleTopArgs) :
    (db.getLocaleTop w args).2.dbIndex = db.dbIndex := by
  unfold getLocaleTop
  dsimp only
  split_ifs
  · rfl
  rcases topDstQuery w.localeTop.memory args with e | q
  · rfl
  dsimp only
  rcases db.dbDst.processRecords topDstTable w.dst with ⟨err | records, v⟩
  · rfl
  · rfl

theorem Ordered.getTop (h : db.Ordered) (w : World) (params : ObjectMap) : (db.getTop w params).2.Ordered := by
  unfold Database.getTop
  rcases TopParams.read params with e | p
  · exact h
  dsimp only
  split_ifs
  · exact h
  · rcases p.locale with _ | locale
    · exact h
    have hindex := getLocaleTop_index db w ⟨locale, p.departureDateFrom, p.departureDateTo, p.dealsLimit⟩
    dsimp only
    rcases htop : db.getLocaleTop w ⟨locale, p.departureDateFrom, p.departureDateTo, p.dealsLimit⟩ with
      ⟨e | result, db₁⟩
    · rw [htop] at hindex
      exact h.of_index hindex
    rw [htop] at hindex
    dsimp only
    rcases (result.map DstInfo.destination).foldlM IATACodes.addCode p.destinations with e | destinations
    · exact h.of_index hindex
    · exact (h.of_index hindex).searchFor _ w _
  · exact h.searchFor _ w p

theorem Ordered.clear (h : db.Ordered) (w : World) : (db.clear w).2.Ordered := by
  have htruncate : (db.truncate w).2.Ordered := by
    unfold truncate
    rcases db.dataView.cleanup dealDataTable w.data with ⟨_ | err, v⟩
    swap
    · exact h.setData v
    have hindex := Kempt.cleanup (h.setData v) w.index
    dsimp only
    rcases hclean : (db.setData v).indexView.cleanup dealInfoTable w.index with ⟨_ | err, u⟩
    · rw [hclean] at hindex
      exact hindex
    · rw [hclean] at hindex
      exact hindex
  unfold Database.clear
  rcases hres : db.truncate w with ⟨err | ok, db₁⟩
  · rw [hres] at htruncate
    exact htruncate
  rw [hres] at htruncate
  dsimp only
  unfold truncateDst
  rcases db₁.dbDst.cleanup topDstTable w.dst with ⟨_ | err, v⟩
  · exact htruncate.of_index rfl
  · exact htruncate.of_index rfl

theorem Ordered.step (h : db.Ordered) (a : World × Request)
    (hearly : a.1.index.now + dealsExpires.toNat + removeExpiredPagesDelaySec < 2 ^ 32) : (db.step a).Ordered := by
  obtain ⟨w, request⟩ := a
  unfold Database.step
  -- one case for each route of the server
  cases request with
  | addDeal params body =>
    unfold serve
    dsimp only
    rcases AddParams.parse params with e | p
    · exact h
    have hadd := h.add p body hearly
    dsimp only
    rcases hres : db.add w p body with ⟨res, db₁⟩
    rw [hres] at hadd
    exact hadd
  | getTop params =>
    rw [serve_getTop]
    exact h.getTop w params
  | getUniqueRoutes =>
    rw [serve_getUniqueRoutes]
    exact h.records w
  | getStats =>
    rw [serve_getStats]
    exact h.records w
  | getDestiantionsTop params =>
    rw [serve_getDestiantionsTop]
    unfold getDestiantionsTop
    rcases readLocaleTopArgs params with e | args
    · exact h
    · exact h.of_index (getLocaleTop_index db w args)
  | clear =>
    rw [serve_clear]
    exact h.clear w

/-- **Whatever requests are served, and however they fail**, `db_index` is in order until the last day of the clock. -/
theorem ordered_run {as : List (World × Request)}
    (hearly : ∀ a ∈ as, a.1.index.now + dealsExpires.toNat + removeExpiredPagesDelaySec < 2 ^ 32) :
    (run Database.step .init as).Ordered :=
  inv_run Ordered (fun _ a h ha => h.step a ha) alone_init.kempt (always_of_forall hearly _)

end Database

/-! ## Later requests -/

/-- The record is not too old for a search. -/
def Young (globalExpireAt clock : UInt32) (deal : DealInfo) : Bool := minTimestamp globalExpireAt clock < deal.timestamp

/-- Records that are too old do not matter to a search. -/
theorem execute_congr {agg : Aggregation} {w w' : SearchWorld} {q : SearchQuery} {records records' : List DealInfo}
    (hrecords : w.records = .ok records) (hw' : w' = { w with records := .ok records' })
    (hyoung : records'.filter (Young w.globalExpireAt w.clock) = records.filter (Young w.globalExpireAt w.clock)) :
    DealsServer.execute agg w' q = DealsServer.execute agg w q := by
  have hpasses (q' : DayQuery) (l : List DealInfo) :
      (l.filter (Young w.globalExpireAt w.clock)).filter
          (processElement { q'.toSearchQuery with minTimestamp := minTimestamp w.globalExpireAt w.clock }) =
        l.filter (processElement { q'.toSearchQuery with minTimestamp := minTimestamp w.globalExpireAt w.clock }) := by
    rw [List.filter_filter]
    refine List.filter_congr fun deal _ => ?_
    rw [Bool.and_eq_left_iff_imp]
    exact fun hp => decide_eq_true (young_of_passes hp)
  subst hw'
  unfold DealsServer.execute
  rw [hrecords]
  rcases agg.preSearch { q with groupByReturnDate := false } with e | q'
  · rfl
  · simp only [bind, Except.bind, Except.mapError]
    rw [← hpasses, hyoung, hpasses]

/-- The clocks of a search are not before those of the request, and fit their words. -/
structure Later (w w' : World) : Prop where
  release : w.index.releaseNow ≤ w'.index.now
  index : w.index.now ≤ w'.index.now
  search : w.index.now ≤ w'.searchClock
  word : w'.searchClock < 2 ^ 32

namespace Database

/-- What `execute` answers if reading the table does not fail. -/
def answer (db : Database) (agg : Aggregation) (w : World) (q : SearchQuery) : Except Thrown (List DealInfo) :=
  DealsServer.execute agg
    { lifetimeClock := w.lifetimeClock.toUInt32
      clock := w.searchClock.toUInt32
      globalExpireAt := db.globalExpireAt.toUInt32
      records := .ok (db.indexView.stock dealInfoTable w.index.now)
      order := w.order
      payload := fun _ => .error .other
      orderPerm := w.orderPerm } q

/-- What `execute` returns is that answer. -/
theorem execute_answer {db : Database} {agg : Aggregation} {w : World} {q : SearchQuery} {result : List DealInfo}
    (h : Alone dealInfoTable db.indexView) (hcur : Current db.indexView)
    (hopens : ∀ name, w.index.opens name = .mapped) (hclock : w.index.releaseNow ≤ w.index.now)
    (hresult : (db.execute agg w q).1 = .ok result) : db.answer agg w q = .ok result := by
  unfold execute at hresult
  rcases hpre : agg.preSearch { q with groupByReturnDate := false } with e | q'
  · rw [hpre] at hresult
    cases hresult
  rw [hpre] at hresult
  dsimp only at hresult
  rcases hscan : db.indexView.processRecords dealInfoTable w.index with ⟨err | records, v⟩
  · rw [hscan] at hresult
    obtain ⟨records, hrecords, -⟩ := execute_young hresult
    cases hrecords
  · rw [hscan] at hresult
    have hrecords := h.processRecords_stock hcur dealInfo_shortNames hopens hclock (congrArg Prod.fst hscan)
    unfold answer
    rw [← hrecords]
    exact hresult

/-- Records that are too old do not matter to the answer. -/
theorem answer_congr {db db' : Database} {agg : Aggregation} {w : World} {q : SearchQuery}
    (hglobal : db'.globalExpireAt = db.globalExpireAt)
    (hstock : (db'.indexView.stock dealInfoTable w.index.now).filter
        (Young db.globalExpireAt.toUInt32 w.searchClock.toUInt32) =
      (db.indexView.stock dealInfoTable w.index.now).filter
        (Young db.globalExpireAt.toUInt32 w.searchClock.toUInt32)) :
    db'.answer agg w q = db.answer agg w q := by
  unfold answer
  rw [hglobal]
  exact execute_congr rfl rfl hstock

/-- Later searches return the same deals, and the same destinations are counted. -/
structure SameAnswers (w : World) (db db' : Database) : Prop where
  deals : ∀ w', Later w w' → ∀ agg q, db'.answer agg w' q = db.answer agg w' q
  destinations : ∀ w' args, (db'.getLocaleTop w' args).1 = (db.getLocaleTop w' args).1

/-- A request that is answered with an error changes no later answer. -/
def AllOrNothing (db : Database) (w : World) (params : ObjectMap) (body : Bytes) : Prop :=
  ∀ e, (db.serve w (.addDeal params body)).1 = .error e →
    SameAnswers w db (db.serve w (.addDeal params body)).2

/-- The database with the body that the request inserts. -/
def withBody (db : Database) (w : World) (body : Bytes) : Database :=
  db.setData (db.dataView.addRecord dealDataTable w.data (body.take (body.length % 2 ^ 32)) 0).2

/-- All three tables have a slot and its page for the request. -/
structure Completes (db : Database) (w : World) (body : Bytes) : Prop where
  data : Inserts dealDataTable db.dataView w.data (body.length % 2 ^ 32)
  index : Inserts dealInfoTable (db.withBody w body).indexView w.index 1
  dst : Inserts topDstTable db.dbDst w.dst 1

/-- The request leaves nothing to take back: `db_data` gives up no page that has records to show, and if the body is
inserted, the record is not, and a slot that was handed out for it is hidden from later searches. -/
structure NothingToUndo (db : Database) (w : World) (body : Bytes) : Prop where
  data : SparesOldest dealDataTable db.dataView w.data (body.length % 2 ^ 32)
  ordered : Inserts dealDataTable db.dataView w.data (body.length % 2 ^ 32) → db.Ordered
  record : Inserts dealDataTable db.dataView w.data (body.length % 2 ^ 32) →
    ¬ Inserts dealInfoTable db.indexView w.index 1
  unseen : Inserts dealDataTable db.dataView w.data (body.length % 2 ^ 32) →
    ∀ v₁ type k, Comes dealInfoTable db.indexView v₁ w.index 1 type k → ∀ clock, w.index.now ≤ clock → clock < 2 ^ 32 →
      Unseen dealInfoTable (Young db.globalExpireAt.toUInt32 clock.toUInt32) v₁ type k w.index.now 1 0

/-- Body and record have their slots and pages, and the destination has not. -/
structure Uncounted (db : Database) (w : World) (body : Bytes) : Prop where
  data : Inserts dealDataTable db.dataView w.data (body.length % 2 ^ 32)
  index : Inserts dealInfoTable (db.withBody w body).indexView w.index 1
  dst : ¬ Inserts topDstTable db.dbDst w.dst 1

theorem SameAnswers.refl (w : World) (db : Database) : SameAnswers w db db := ⟨fun _ _ _ _ => rfl, fun _ _ => rfl⟩

/-- `getLocaleTop` reads `db_dst` and its cache only. -/
theorem getLocaleTop_congr {db db' : Database} (hdst : db'.dbDst = db.dbDst) (hcache : db'.resultCache = db.resultCache)
    (w : World) (args : LocaleTopArgs) : (db'.getLocaleTop w args).1 = (db.getLocaleTop w args).1 := by
  unfold getLocaleTop
  rw [hcache]
  dsimp only
  rw [hdst]
  split_ifs
  · rfl
  rcases topDstQuery w.localeTop.memory args with e | q
  · rfl
  dsimp only
  rcases db.dbDst.processRecords topDstTable w.dst with ⟨err | records, v⟩
  · rfl
  · rfl

theorem sameAnswers_of {db db' : Database} {w : World} (hdst : db'.dbDst = db.dbDst)
    (hcache : db'.resultCache = db.resultCache)
    (hindex : ∀ now clock, w.index.releaseNow ≤ now → w.index.now ≤ now → w.index.now ≤ clock → clock < 2 ^ 32 →
      db'.globalExpireAt = db.globalExpireAt ∧
        (db'.indexView.stock dealInfoTable now).filter (Young db.globalExpireAt.toUInt32 clock.toUInt32) =
          (db.indexView.stock dealInfoTable now).filter (Young db.globalExpireAt.toUInt32 clock.toUInt32)) :
    SameAnswers w db db' := by
  refine ⟨fun w' hlater agg q => ?_, fun w' args => getLocaleTop_congr hdst hcache w' args⟩
  obtain ⟨hglobal, hstock⟩ := hindex w'.index.now w'.searchClock hlater.release hlater.index hlater.search hlater.word
  exact answer_congr hglobal hstock

theorem length_body (body : Bytes) : (body.take (body.length % 2 ^ 32)).length = body.length % 2 ^ 32 := by
  rw [List.length_take, min_eq_left (Nat.mod_le _ _)]

/-- A deal is inserted if both tables have a slot and its page. -/
theorem addDeal_ok {db : Database} {w : World} {body : Bytes}
    (hdata : Inserts dealDataTable db.dataView w.data (body.length % 2 ^ 32))
    (hindex : Inserts dealInfoTable (db.withBody w body).indexView w.index 1) (p : AddParams) :
    (db.addDeal w p body).1 = .ok () := by
  rw [← length_body] at hdata
  obtain ⟨place, hbody⟩ := (addRecord_ok_iff _ _ _ _ 0).2 hdata
  unfold withBody at hindex
  unfold addDeal
  rcases hadd : db.dataView.addRecord dealDataTable w.data (body.take (body.length % 2 ^ 32)) 0 with ⟨err | place, v⟩
  · rw [hadd] at hbody
    cases hbody
  rw [hadd] at hindex
  dsimp only at hindex ⊢
  obtain ⟨place', hrecord⟩ := (addRecord_ok_iff dealInfoTable (db.setData v).indexView w.index
    [dealRecord w.stray w.timestampClock.toUInt32 place p] 0).2 hindex
  rcases hadd' : (db.setData v).indexView.addRecord dealInfoTable w.index
    [dealRecord w.stray w.timestampClock.toUInt32 place p] 0 with ⟨err | place', v'⟩
  · rw [hadd'] at hrecord
    cases hrecord
  · rfl

theorem addDeal_dbDst (db : Database) (w : World) (p : AddParams) (body : Bytes) :
    (db.addDeal w p body).2.dbDst = db.dbDst := by
  unfold addDeal
  rcases db.dataView.addRecord dealDataTable w.data (body.take (body.length % 2 ^ 32)) 0 with ⟨err | place, v⟩
  · rfl
  dsimp only
  rcases (db.setData v).indexView.addRecord dealInfoTable w.index
    [dealRecord w.stray w.timestampClock.toUInt32 place p] 0 with ⟨err | place', v'⟩
  · rfl
  · rfl

/-- The destination is counted exactly if `db_dst` has a slot and its page. -/
theorem addDestination_ok_iff (db : Database) (w : World) (record : DstRecord) :
    (db.addDestination w record).1 = .ok () ↔ Inserts topDstTable db.dbDst w.dst 1 := by
  rw [show (1 : ℕ) = [record].length from rfl, ← addRecord_ok_iff topDstTable db.dbDst w.dst [record] 0]
  unfold addDestination
  rcases db.dbDst.addRecord topDstTable w.dst [record] 0 with ⟨err | place, v⟩
  · constructor
    · intro h
      cases h
    · rintro ⟨place, h⟩
      cases h
  · exact ⟨fun _ => ⟨place, rfl⟩, fun _ => rfl⟩

/-- A request that completes does not fail. -/
theorem Completes.add {db : Database} {w : World} {body : Bytes} (h : db.Completes w body) (p : AddParams) :
    (db.add w p body).1 = .ok () := by
  have hdeal := addDeal_ok h.data h.index p
  have hdst := addDeal_dbDst db w p body
  unfold Database.add
  rcases hadd : db.addDeal w p body with ⟨err | ok, db₁⟩
  · rw [hadd] at hdeal
    cases hdeal
  · rw [hadd] at hdst
    exact (addDestination_ok_iff ..).2 (by rw [hdst]; exact h.dst)

/-- A deal that is not counted stays, and the request fails. -/
theorem Uncounted.add {db : Database} {w : World} {body : Bytes} (h : db.Uncounted w body) (p : AddParams) :
    (∃ err, (db.add w p body).1 = .error err) ∧ (db.add w p body).2.indexView = (db.addDeal w p body).2.indexView := by
  have hdeal := addDeal_ok h.data h.index p
  have hsame := addDeal_dbDst db w p body
  have hdst := h.dst
  unfold Database.add
  rcases hadd : db.addDeal w p body with ⟨err | ok, db₁⟩
  · rw [hadd] at hdeal
    cases hdeal
  rw [hadd] at hsame
  rw [← hsame, ← addDestination_ok_iff db₁ w ⟨p.locale, p.destination, p.departureDate.code⟩] at hdst
  dsimp only
  constructor
  · rcases hres : (db₁.addDestination w ⟨p.locale, p.destination, p.departureDate.code⟩).1 with err | ok'
    · exact ⟨err, rfl⟩
    · exact absurd hres hdst
  · unfold addDestination
    rcases db₁.dbDst.addRecord topDstTable w.dst [⟨p.locale, p.destination, p.departureDate.code⟩] 0 with ⟨err | place, v⟩
    · rfl
    · rfl

/-- A request with nothing to take back changes no later answer. -/
theorem NothingToUndo.sameAnswers {db : Database} {w : World} {body : Bytes} (h : db.NothingToUndo w body)
    (p : AddParams) : SameAnswers w db (db.add w p body).2 := by
  obtain ⟨hdata, hordered, hrecord, hunseen⟩ := h
  rw [← length_body] at hdata hordered hrecord hunseen
  have hglobal := hdata.global 0
  unfold Database.add addDeal
  rcases hadd : db.dataView.addRecord dealDataTable w.data (body.take (body.length % 2 ^ 32)) 0 with ⟨err | place, v⟩
  · -- the body is not inserted
    rw [hadd] at hglobal
    have hview : (db.setData v).indexView = db.indexView := congrArg (View.mk _ · _) hglobal
    exact sameAnswers_of rfl rfl fun now clock _ _ _ _ => ⟨hglobal, by rw [hview]⟩
  rw [hadd] at hglobal
  have hbody := (addRecord_ok_iff ..).1 ⟨place, congrArg Prod.fst hadd⟩
  have hview : (db.setData v).indexView = db.indexView := congrArg (View.mk _ · _) hglobal
  dsimp only
  rw [hview]
  rcases hadd' : db.indexView.addRecord dealInfoTable w.index [dealRecord w.stray w.timestampClock.toUInt32 place p] 0 with
    ⟨err | place', v'⟩
  · -- the record is not inserted
    refine sameAnswers_of rfl rfl fun now clock hrelease hnow hclock hword => ?_
    obtain ⟨hsame, hstock⟩ := (hordered hbody).addRecord_fails
      (fun v₁ type k hcomes _ => hunseen hbody v₁ type k hcomes clock hclock hword) (congrArg Prod.fst hadd')
    rw [hadd'] at hsame hstock
    exact ⟨hsame, hstock now hrelease hnow⟩
  · exact absurd ((addRecord_ok_iff ..).1 ⟨place', congrArg Prod.fst hadd'⟩) (hrecord hbody)

end Database

theorem serve_addDeal {db : Database} {w : World} {params : ObjectMap} {body : Bytes} {p : AddParams}
    (hparse : AddParams.parse params = .ok p) : db.serve w (.addDeal params body) =
      (((db.add w p body).1.mapError fun err => err.fault.thrown).map fun _ => .added, (db.add w p body).2) := by
  rw [Database.serve, hparse]

/-- The parameters of a deal. -/
def offeredParams : ObjectMap :=
  [⟨str "departure_date", str "2016-05-10"⟩, ⟨str "price", str "100"⟩, ⟨str "locale", str "ru"⟩,
    ⟨str "destination_country", str "ru"⟩, ⟨str "origin", str "MOW"⟩, ⟨str "destination", str "LED"⟩,
    ⟨str "direct_flight", str "true"⟩]

/-- What they are parsed to. -/
def offered : AddParams := ⟨none, ⟨20160510, 10, 5, 2016⟩, 100, 184, 184, 1464814848, 1145392128, true⟩

theorem offered_parse : AddParams.parse offeredParams = .ok offered := by decide +kernel

/-- The page of the record cannot be opened. -/
def closedWorld : World := { quietWorld 1000000 with index := { quietCalls 1000000 with opens := fun _ => .cannotOpen } }

/-- The call comes to the first entry of an empty index. -/
theorem closed_comes {v₁ : View DealInfo} {type : PageType} {k : ℕ}
    (h : Comes dealInfoTable Database.init.indexView v₁ closedWorld.index 1 type k) :
    v₁.shared.index = (fun _ => ⟨0, 0, []⟩) ∧ v₁.shared.names = (fun _ => none) ∧ v₁.own.openedPagesList = [] ∧
      type = .new ∧ k = 0 := by
  have hrelease : (Database.init.indexView.releaseExpiredMemoryPages dealInfoTable closedWorld.index).2 = v₁ := by
    rw [h.release]
  have hselect : ((Database.init.indexView.releaseExpiredMemoryPages dealInfoTable closedWorld.index).2.selectPage
      dealInfoTable closedWorld.index.now closedWorld.index.memLow 1) = (.new, 0) := by
    decide +kernel
  rw [hrelease, h.select] at hselect
  cases hselect
  subst hrelease
  exact ⟨rfl, rfl, rfl, rfl, rfl⟩

/-- The slot stays handed out, and a page that is not there has no deal for a search. -/
theorem closed_nothingToUndo : Database.init.NothingToUndo closedWorld (str "body") where
  data := sparesOldest_of_memory rfl
  ordered _ := alone_init.kempt
  record _ := by
    rintro ⟨v₁, type, k, hcomes, ⟨o, hlocal⟩ | ⟨-, -, -, -, hopens, -⟩⟩
    · have hopened := mem_of_local hlocal
      rw [(closed_comes hcomes).2.2.1] at hopened
      cases hopened
    · exact hopens rfl
  unseen _ v₁ type k hcomes clock _ _ := by
    obtain ⟨hindex, hnames, -, rfl, rfl⟩ := closed_comes hcomes
    refine ⟨fun hold => ?_, ?_, fun _ j _ _ => ?_, fun _ _ _ i _ => .inr ?_⟩
    · cases hold
    · rw [reserved_index_self, reservedEntry_mk]
      exact lt_max_of_lt_right (by decide)
    · rw [hindex]
    · unfold SharedMemory.element
      rw [hnames]
      exact decide_eq_false (UInt32.not_lt.2 (UInt32.zero_le ..))

/-- The lock of `db_dst` is not got in time. -/
def lockedWorld : World := { quietWorld 1000000 with dst := { quietCalls 1000000 with lock := false } }

theorem locked_uncounted : Database.init.Uncounted lockedWorld (str "body") where
  data := (addRecord_ok_iff _ _ _ (str "body") 0).1 ⟨⟨str "DealsData:0", 0, 4⟩, by decide +kernel⟩
  index := (addRecord_ok_iff _ _ _ [DealInfo.zero] 0).1 ⟨⟨str "DealsInfo:0", 0, 1⟩, by decide +kernel⟩
  dst := by
    rintro ⟨v₁, type, k, hcomes, -⟩
    exact absurd hcomes.lock (by decide)

/-- Both requests fail, and `db_index` is in order. -/
theorem ordered_run_failures :
    (run Database.step .init [(closedWorld, .addDeal offeredParams (str "body")),
      (lockedWorld, .addDeal offeredParams (str "body"))]).Ordered := by
  refine Database.ordered_run fun a ha => ?_
  simp only [List.mem_cons, List.not_mem_nil, or_false] at ha
  rcases ha with rfl | rfl
  · decide
  · decide

/-- What the request leaves. -/
def lockedDatabase : Database := (Database.init.add lockedWorld offered (str "body")).2

theorem locked_serve : Database.init.serve lockedWorld (.addDeal offeredParams (str "body")) =
    (.error (.error ⟨str "CANT_LOCK\n", .internalError⟩), lockedDatabase) := by
  have hadd : (Database.init.add lockedWorld offered (str "body")).1 = .error .cantLock := by
    decide +kernel
  rw [serve_addDeal offered_parse, hadd]
  rfl

/-- The record of the deal. -/
def offeredDeal : DealInfo :=
  ⟨1000000, 1464814848, 1145392128, 20160510, 0, 100, 255, 184, 2, 2, true, false, str "DealsData:0", 0, 4⟩

theorem locked_stock : lockedDatabase.indexView.stock dealInfoTable 1000001 = [offeredDeal] := by
  rw [stock_eq_scan]
  decide +kernel

/-- A search for deals from the origin `MOW`. -/
def fromMoscow : Request := .getTop [⟨str "origin", str "MOW"⟩]

/-- What the search is parsed to. -/
def moscow : TopParams := { oneDeal with origin := 1464814848, dealsLimit := none }

theorem moscow_serve (db : Database) (w : World) : db.serve w fromMoscow =
    ((db.searchFor .simplyCheapest w moscow).1.map .deals, (db.searchFor .simplyCheapest w moscow).2) := by
  have hread : TopParams.read [⟨str "origin", str "MOW"⟩] = .ok moscow := by
    decide +kernel
  have htop : db.getTop w [⟨str "origin", str "MOW"⟩] = db.searchFor .simplyCheapest w moscow := by
    unfold Database.getTop
    rw [hread]
    rfl
  rw [fromMoscow, serve_getTop, htop]

/-- The query of the search. -/
def moscowQuery : SearchQuery := queryOf (quietWorld 1000001).memory 1000001 moscow [] []

/-- **A deal is returned whose request was answered with an error.** -/
example :
    Database.init.serve lockedWorld (.addDeal offeredParams (str "body")) =
        (.error (.error ⟨str "CANT_LOCK\n", .internalError⟩), lockedDatabase) ∧
      (lockedDatabase.serve (quietWorld 1000001) fromMoscow).1 = .ok (.deals [str "body"]) ∧
      (Database.init.serve (quietWorld 1000001) fromMoscow).1 = .ok (.deals []) ∧
      ¬ Database.init.AllOrNothing lockedWorld offeredParams (str "body") := by
  rw [moscow_serve, moscow_serve]
  refine ⟨locked_serve, by decide +kernel, by decide +kernel, fun h => ?_⟩
  have hsame := h _ (congrArg Prod.fst locked_serve)
  rw [locked_serve] at hsame
  have hlater : Later lockedWorld (quietWorld 1000001) := ⟨by decide, by decide, by decide, by decide⟩
  have hfound : lockedDatabase.answer .simplyCheapest (quietWorld 1000001) moscowQuery = .ok [offeredDeal] := by
    refine execute_one rfl (congrArg Except.ok locked_stock) ?_ ?_
    · decide +kernel
    · decide +kernel
  rw [hsame.deals _ hlater] at hfound
  obtain ⟨records, hrecords, hin⟩ := execute_young hfound
  have hempty : Database.init.indexView.stock dealInfoTable 1000001 = [] := by
    rw [stock_eq_scan]
    rfl
  cases hrecords.symm.trans (congrArg Except.ok hempty)
  exact absurd (hin offeredDeal List.mem_cons_self).1 List.not_mem_nil

/-- A deal was added and has filled its page of `db_data`, and the process has just started. -/
def fullDatabase : Database :=
  let db := (Database.init.add (quietWorld 1000000) offered (str "body")).2
  { db with
    dbIndex := ⟨db.dbIndex.shared, .init⟩
    dbData := ⟨db.dbData.shared.setEntry 0 ⟨1086400, 0, str "DealsData:0"⟩, .init⟩ }

/-- Memory is low, and no page of `db_data` can be opened. -/
def lowWorld : World :=
  { quietWorld 1000000 with data := { quietCalls 1000000 with memLow := true, opens := fun _ => .cannotOpen } }

/-- **A request that fails takes a deal from later searches**: the page of its body was given up before. -/
example :
    (fullDatabase.serve (quietWorld 1000001) fromMoscow).1 = .ok (.deals [str "body"]) ∧
      (fullDatabase.serve lowWorld (.addDeal offeredParams (str "body"))).1 =
        .error (.error ⟨str "CANNOT_OPEN_SHMEM_PAGE\n", .internalError⟩) ∧
      ((fullDatabase.serve lowWorld (.addDeal offeredParams (str "body"))).2.serve (quietWorld 1000001)
        fromMoscow).1 = .ok (.deals []) := by
  rw [serve_addDeal offered_parse, moscow_serve, moscow_serve]
  exact ⟨by decide +kernel, by decide +kernel, by decide +kernel⟩

end DealsServer
