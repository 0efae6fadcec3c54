import DealsServer.Spec.Search
import DealsServer.Spec.Table
import DealsServer.Spec.TopDestinations
import DealsServer.Spec.UniqueRoutes

/-!
# The databases (`deals_database.cpp`, `top_destinations.cpp`, `deals_stats.cpp`)

What one process has of the three tables, and the requests on them. `db_index` and `db_data` share one
`global_expire_at`. Tables have different names, so each has shared memory of its own.
-/

namespace DealsServer

open Decimal

/-! ## The tables -/

/-- `DEALINFO_TABLENAME`, `DEALINFO_PAGES` and `DEALINFO_ELEMENTS`. -/
def dealInfoTable : TableConfig where
  tableName := str "DealsInfo"
  tableMaxPages := 5000
  maxElementsInPage := 10000
  recordExpireSeconds := dealsExpires.toNat
  maxPages_lt := by decide
  maxElements_lt := by decide

/-- `DEALDATA_TABLENAME`, `DEALDATA_PAGES` and `DEALDATA_ELEMENTS`. -/
def dealDataTable : TableConfig where
  tableName := str "DealsData"
  tableMaxPages := 10000
  maxElementsInPage := 50000000
  recordExpireSeconds := dealsExpires.toNat
  maxPages_lt := by decide
  maxElements_lt := by decide

/-- `TOPDST_TABLENAME`, `TOPDST_PAGES` and `TOPDST_ELEMENTS`. -/
def topDstTable : TableConfig where
  tableName := str "TopDst"
  tableMaxPages := 5000
  maxElementsInPage := 10000
  recordExpireSeconds := dealsExpires.toNat
  maxPages_lt := by decide
  maxElements_lt := by decide

/-- A table without the `global_expire_at` of its context. -/
structure TableState (α : Type) where
  shared : SharedMemory α
  own : TableLocal

/-- `DealsDatabase` and `TopDstDatabase`, as one process sees them. -/
structure Database where
  dbIndex : TableState DealInfo
  dbData : TableState UInt8
  globalExpireAt : ℕ
  dbDst : View DstRecord
  resultCache : ResultCache

instance : Inhabited DealInfo := ⟨.zero⟩

/-- An exception of a table. -/
def TableError.fault (err : TableError) : StorageFault := .internalError err.message

namespace Database

/-- No pages, and a process that has just started. -/
def init : Database where
  dbIndex := ⟨.init, .init⟩
  dbData := ⟨.init, .init⟩
  globalExpireAt := 0
  dbDst := ⟨.init, 0, .init⟩
  resultCache := fun _ => none

/-- The databases of a process that has just started, over the pages there are. -/
def restart (db : Database) : Database where
  dbIndex := ⟨db.dbIndex.shared, .init⟩
  dbData := ⟨db.dbData.shared, .init⟩
  globalExpireAt := db.globalExpireAt
  dbDst := { db.dbDst with own := .init }
  resultCache := fun _ => none

/-- `db_index` with its context. -/
def indexView (db : Database) : View DealInfo := ⟨db.dbIndex.shared, db.globalExpireAt, db.dbIndex.own⟩

/-- `db_data` with its context. -/
def dataView (db : Database) : View UInt8 := ⟨db.dbData.shared, db.globalExpireAt, db.dbData.own⟩

def setIndex (db : Database) (v : View DealInfo) : Database :=
  { db with dbIndex := ⟨v.shared, v.own⟩, globalExpireAt := v.globalExpireAt }

def setData (db : Database) (v : View UInt8) : Database :=
  { db with dbData := ⟨v.shared, v.own⟩, globalExpireAt := v.globalExpireAt }

end Database

/-- What a request meets: the calls of the operations on each table, the clocks of `info.timestamp`, of
`max_lifetime_sec` and of `execute`, what a call of `getLocaleTop` meets, the memory of the query and around the
weekday table, and the orders the unordered maps are iterated in. -/
structure World where
  index : Calls
  data : Calls
  dst : Calls
  timestampClock : ℕ
  lifetimeClock : ℕ
  searchClock : ℕ
  localeTop : LocaleTopWorld
  memory : Uninit
  stray : ℤ → UInt8
  order : List UInt32 → List UInt32
  orderPerm : ∀ l, (order l).Perm l
  routesOrder : List UInt64 → List UInt64
  routesPerm : ∀ l, (routesOrder l).Perm l

namespace Database

/-! ## Adding a deal -/

/-- `DealsDatabase::addDeal`. The size of the body is a `uint32_t`. -/
def addDeal (db : Database) (w : World) (p : AddParams) (body : Bytes) : Except TableError Unit × Database :=
  match db.dataView.addRecord dealDataTable w.data (body.take (body.length % 2 ^ 32)) 0 with
  | (.error err, v) => (.error err, db.setData v)
  | (.ok place, v) =>
    let db := db.setData v
    let info := dealRecord w.stray w.timestampClock.toUInt32 place p
    match db.indexView.addRecord dealInfoTable w.index [info] 0 with
    | (.error err, v) => (.error err, db.setIndex v)
    | (.ok _, v) => (.ok (), db.setIndex v)

/-- `TopDstDatabase::addDestination`. -/
def addDestination (db : Database) (w : World) (record : DstRecord) : Except TableError Unit × Database :=
  match db.dbDst.addRecord topDstTable w.dst [record] 0 with
  | (.error err, v) => (.error err, { db with dbDst := v })
  | (.ok _, v) => (.ok (), { db with dbDst := v })

/-- `DealsServer::addDeal`, from its parameters on. -/
def add (db : Database) (w : World) (p : AddParams) (body : Bytes) : Except TableError Unit × Database :=
  match db.addDeal w p body with
  | (.error err, db) => (.error err, db)
  | (.ok _, db) => db.addDestination w ⟨p.locale, p.destination, p.departureDate.code⟩

/-! ## Searches -/

/-- The loop of `fill_deals_with_data`. -/
def fillLoop (opens : Bytes → OpenResult) : List DealInfo → View UInt8 → Except TableError (List Bytes) × View UInt8
  | [], v => (.ok [], v)
  | deal :: rest, v =>
    match v.getElementData ⟨deal.pageName, deal.index, deal.size⟩ opens with
    | (.error err, v) => (.error err, v)
    | (.ok data, v) =>
      match fillLoop opens rest v with
      | (.error err, v) => (.error err, v)
      | (.ok result, v) => (.ok (data :: result), v)

/-- `DealsSearchQuery::execute` over `db_index`. A query that `pre_search` rejects reads no table. -/
def execute (db : Database) (agg : Aggregation) (w : World) (q : SearchQuery) :
    Except Thrown (List DealInfo) × Database :=
  match agg.preSearch { q with groupByReturnDate := false } with
  | .error e => (.error e, db)
  | .ok _ =>
    let (records, v) := db.indexView.processRecords dealInfoTable w.index
    (DealsServer.execute agg
      { lifetimeClock := w.lifetimeClock.toUInt32
        clock := w.searchClock.toUInt32
        globalExpireAt := db.globalExpireAt.toUInt32
        records := records.mapError TableError.fault
        order := w.order
        payload := fun _ => .error .other
        orderPerm := w.orderPerm } q, db.setIndex v)

/-- `DealsDatabase::searchFor`. -/
def searchFor (db : Database) (agg : Aggregation) (w : World) (p : TopParams) : Except Thrown (List Bytes) × Database :=
  match buildQuery w.memory w.lifetimeClock.toUInt32 p with
  | .error e => (.error e, db)
  | .ok q =>
    match db.execute agg w q with
    | (.error e, db) => (.error e, db)
    | (.ok deals, db) =>
      let (result, v) := fillLoop w.data.opens deals db.dataView
      (result.mapError fun err => err.fault.thrown, db.setData v)

/-- `getLocaleTop`. -/
def getLocaleTop (db : Database) (w : World) (args : LocaleTopArgs) : Except Thrown (List DstInfo) × Database :=
  let (cached, cache) := getCachedResult db.resultCache args w.localeTop.lookupClock
  let db := { db with resultCache := cache }
  if cached.length > 0 then (.ok cached, db)
  else
    match topDstQuery w.localeTop.memory args with
    | .error e => (.error e, db)
    | .ok q =>
      match db.dbDst.processRecords topDstTable w.dst with
      | (.error err, v) => (.error err.fault.thrown, { db with dbDst := v })
      | (.ok records, v) =>
        let result := topDstExec q w.localeTop.order records
        (.ok result,
          { db with dbDst := v, resultCache := saveResultToCache db.resultCache args result w.localeTop.saveClock })

/-- `DealsServer::getTop`, up to the response. -/
def getTop (db : Database) (w : World) (params : ObjectMap) : Except Thrown (List Bytes) × Database :=
  match TopParams.read params with
  | .error e => (.error e, db)
  | .ok p =>
    if p.badDates then (raise (str "Bad date parameters in request\n"), db)
    else if p.addLocaleTop = some true then
      match p.locale with
      | none => (raise (str "No locale provided on add_locale_top=true\n"), db)
      | some locale =>
        match db.getLocaleTop w ⟨locale, p.departureDateFrom, p.departureDateTo, p.dealsLimit⟩ with
        | (.error e, db) => (.error e, db)
        | (.ok result, db) =>
          match (result.map DstInfo.destination).foldlM IATACodes.addCode p.destinations with
          | .error e => (.error e, db)
          | .ok destinations =>
            db.searchFor p.aggregation w { p with destinations := destinations }
    else db.searchFor p.aggregation w p

/-- The parameters of `getDestiantionsTop`. -/
def readLocaleTopArgs (params : ObjectMap) : Except Thrown LocaleTopArgs := do
  let locale ← requiredParam CountryCode.parse params "locale"
  let departureDateFrom ← optionalParam Date.parse params "departure_date_from"
  let departureDateTo ← optionalParam Date.parse params "departure_date_to"
  let limit ← optionalParam Number.parse params "destinations_limit"
  return ⟨locale, departureDateFrom, departureDateTo, limit⟩

/-- `DealsServer::getDestiantionsTop`, up to the response. -/
def getDestiantionsTop (db : Database) (w : World) (params : ObjectMap) : Except Thrown (List DstInfo) × Database :=
  match readLocaleTopArgs params with
  | .error e => (.error e, db)
  | .ok args => db.getLocaleTop w args

/-- The records of `db_index`. -/
def records (db : Database) (w : World) : Except Thrown (List DealInfo) × Database :=
  let (records, v) := db.indexView.processRecords dealInfoTable w.index
  (records.mapError fun err => err.fault.thrown, db.setIndex v)

/-- `getUniqueRoutesDeals`. -/
def getUniqueRoutesDeals (db : Database) (w : World) : Except Thrown Bytes × Database :=
  let (records, db) := db.records w
  (records.map fun records => (uniqueRoutes records).getStringResults w.routesOrder, db)

end Database

/-! ## Statistics -/

/-- `StatsProcessor`. -/
structure StatsProcessor where
  elements : UInt64
  size : UInt64
  max : UInt32
  min : UInt32
  deriving DecidableEq, Repr

namespace StatsProcessor

/-- A new processor. -/
def empty : StatsProcessor := ⟨0, 0, 0, 2 ^ 32 - 1⟩

/-- `process_element`. -/
def processElement (s : StatsProcessor) (deal : DealInfo) : StatsProcessor where
  elements := s.elements + 1
  size := s.size + deal.size.toUInt64
  max := if deal.timestamp > s.max then deal.timestamp else s.max
  min := if deal.timestamp < s.min then deal.timestamp else s.min

/-- `getStringResults`. -/
def getStringResults (s : StatsProcessor) : Bytes :=
  str "\x7b\"elements\":" ++ decimal s.elements.toNat ++ str ",\"size\":" ++ decimal s.size.toNat ++
    str ",\"min\":" ++ decimal s.min.toNat ++ str ",\"max\":" ++ decimal s.max.toNat ++ str "\x7d"

end StatsProcessor

namespace Database

/-- `getStatsRoutine`, before it is printed. -/
def stats (db : Database) (w : World) : Except Thrown StatsProcessor × Database :=
  let (records, db) := db.records w
  (records.map fun records => records.foldl StatsProcessor.processElement StatsProcessor.empty, db)

/-! ## Clearing -/

/-- `DealsDatabase::truncate`. -/
def truncate (db : Database) (w : World) : Except TableError Unit × Database :=
  match db.dataView.cleanup dealDataTable w.data with
  | (some err, v) => (.error err, db.setData v)
  | (none, v) =>
    let db := db.setData v
    match db.indexView.cleanup dealInfoTable w.index with
    | (some err, v) => (.error err, db.setIndex v)
    | (none, v) => (.ok (), db.setIndex v)

/-- `TopDstDatabase::truncate`. -/
def truncateDst (db : Database) (w : World) : Except TableError Unit × Database :=
  match db.dbDst.cleanup topDstTable w.dst with
  | (some err, v) => (.error err, { db with dbDst := v })
  | (none, v) => (.ok (), { db with dbDst := v })

/-- The request `/clear`. -/
def clear (db : Database) (w : World) : Except TableError Unit × Database :=
  match db.truncate w with
  | (.error err, db) => (.error err, db)
  | (.ok _, db) => db.truncateDst w

end Database

/-! ## Requests -/

inductive Request
  | addDeal (params : ObjectMap) (body : Bytes)
  | getTop (params : ObjectMap)
  | getUniqueRoutes
  | getStats
  | getDestiantionsTop (params : ObjectMap)
  | clear
  deriving DecidableEq, Repr

/-- What a request is answered with. -/
inductive Answer
  | added
  | deals (result : List Bytes)
  | routes (text : Bytes)
  | stats (s : StatsProcessor)
  | destinations (result : List DstInfo)
  | cleared
  deriving DecidableEq, Repr

/-- `on_data` for a request that is complete. -/
def Database.serve (db : Database) (w : World) : Request → Except Thrown Answer × Database
  | .addDeal params body =>
    match AddParams.parse params with
    | .error e => (.error e, db)
    | .ok p =>
      let (result, db) := db.add w p body
      ((result.mapError fun err => err.fault.thrown).map fun _ => .added, db)
  | .getTop params =>
    let (result, db) := db.getTop w params
    (result.map .deals, db)
  | .getUniqueRoutes =>
    let (result, db) := db.getUniqueRoutesDeals w
    (result.map .routes, db)
  | .getStats =>
    let (result, db) := db.stats w
    (result.map .stats, db)
  | .getDestiantionsTop params =>
    let (result, db) := db.getDestiantionsTop w params
    (result.map .destinations, db)
  | .clear =>
    let (result, db) := db.clear w
    ((result.mapError fun err => err.fault.thrown).map fun _ => .cleared, db)

end DealsServer
