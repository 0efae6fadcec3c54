import DealsServer.Spec.Search

/-!
# Top destinations (`top_destinations.cpp`, `cache.hpp`)

`topDstExec` counts the records of a locale, and `getLocaleTop` is the search behind a cache by locale. The
`unordered_map` of counters is a function with its keys in the order they came; `order` is the order it is
iterated in.
-/

namespace DealsServer

/-- `top::i::DstInfo`, a record of the table. -/
structure DstRecord where
  locale : UInt8
  destination : UInt32
  departureDate : UInt32
  deriving DecidableEq, Repr, Inhabited

/-- `top::DstInfo`. -/
structure DstInfo where
  destination : UInt32
  counter : UInt32
  deriving DecidableEq, Repr

/-- `SearchQuery::locale`. -/
def SearchQuery.locale (q : SearchQuery) (locale : CountryCode) : SearchQuery :=
  match locale with
  | none => q
  | some code => { q with filterLocale := true, localeValue := code }

/-! ## `TopDstSearchQuery` -/

/-- `grouped_destinations`. -/
structure Counters where
  counter : UInt32 → UInt32
  keys : List UInt32

namespace Counters

/-- No destination is counted. -/
def empty : Counters := ⟨fun _ => 0, []⟩

/-- `grouped_destinations[destination]++`. -/
def count (s : Counters) (destination : UInt32) : Counters :=
  { counter := Function.update s.counter destination (s.counter destination + 1)
    keys := if destination ∈ s.keys then s.keys else s.keys ++ [destination] }

end Counters

/-- `TopDstSearchQuery::process_element`. -/
def dstProcessElement (q : SearchQuery) (s : Counters) (e : DstRecord) : Counters :=
  if q.filterLocale ∧ q.localeValue ≠ e.locale then s
  else if q.filterDepartureDate ∧ (e.departureDate < q.departureDateValues.dateFrom ∨
      e.departureDate > q.departureDateValues.dateTo) then s
  else s.count e.destination

/-- `TopDstSearchQuery::exec`, over the records that `processRecords` delivers. -/
def topDstExec (q : SearchQuery) (order : List UInt32 → List UInt32) (records : List DstRecord) : List DstInfo :=
  let s := records.foldl (dstProcessElement q) Counters.empty
  let topDestinations := ((order s.keys).map fun k => DstInfo.mk k (s.counter k)).mergeSort fun a b => !(b.counter > a.counter)
  topDestinations.take q.filterResultLimit.toNat

/-! ## The cache -/

/-- `Cache<std::vector<DstInfo>>`. -/
structure CachedResult where
  tsLiveUntilSec : UInt32
  value : List DstInfo
  deriving DecidableEq, Repr

/-- The constructor of `Cache`. -/
def CachedResult.new (value : List DstInfo) (lifetimeSec now : UInt32) : CachedResult := ⟨lifetimeSec + now, value⟩

/-- `Cache::is_expired`. -/
def CachedResult.isExpired (c : CachedResult) (now : UInt32) : Bool := c.tsLiveUntilSec < now

/-- `result_cache_by_locale`. -/
abbrev ResultCache := UInt8 → Option CachedResult

/-- The arguments of `getLocaleTop`. -/
structure LocaleTopArgs where
  locale : UInt8
  departureDateFrom : Date
  departureDateTo : Date
  limit : Number
  deriving DecidableEq, Repr

/-- A departure date is given. -/
def LocaleTopArgs.dated (args : LocaleTopArgs) : Bool := args.departureDateFrom.isSome || args.departureDateTo.isSome

/-- `getCachedResult` at the clock `now`; an expired entry is erased. -/
def getCachedResult (cache : ResultCache) (args : LocaleTopArgs) (now : UInt32) : List DstInfo × ResultCache :=
  if args.dated then ([], cache)
  else
    match cache args.locale with
    | none => ([], cache)
    | some c =>
      if c.isExpired now then ([], Function.update cache args.locale none)
      else
        match args.limit with
        | none => (c.value, cache)
        | some limit => if c.value.length < limit.toNat then ([], cache) else (c.value.take limit.toNat, cache)

/-- `saveResultToCache` at the clock `now`. -/
def saveResultToCache (cache : ResultCache) (args : LocaleTopArgs) (result : List DstInfo) (now : UInt32) : ResultCache :=
  if result.length = 0 ∨ args.dated then cache
  else Function.update cache args.locale (some (CachedResult.new result 60 now))

/-! ## `getLocaleTop` -/

/-- What a call of `getLocaleTop` meets: the clocks at which the cache is looked up and written, the memory of
the query, and the order of the counters. -/
structure LocaleTopWorld where
  lookupClock : UInt32
  saveClock : UInt32
  memory : Uninit
  order : List UInt32 → List UInt32
  orderPerm : ∀ l, (order l).Perm l

/-- The setters of `getLocaleTop`. -/
def topDstQuery (u : Uninit) (args : LocaleTopArgs) : Except Thrown SearchQuery := do
  let q := (SearchQuery.init u).locale (some args.locale)
  let q ← q.departureDates args.departureDateFrom args.departureDateTo
  q.resultLimit args.limit

/-- The search of `getLocaleTop`. -/
def searchLocaleTop (u : Uninit) (order : List UInt32 → List UInt32) (records : Except StorageFault (List DstRecord))
    (args : LocaleTopArgs) : Except Thrown (List DstInfo) := do
  let q ← topDstQuery u args
  let records ← records.mapError StorageFault.thrown
  return topDstExec q order records

/-- `getLocaleTop`, over what `processRecords` delivers. -/
def getLocaleTop (cache : ResultCache) (w : LocaleTopWorld) (records : Except StorageFault (List DstRecord))
    (args : LocaleTopArgs) : Except Thrown (List DstInfo) × ResultCache :=
  let (cached, cache) := getCachedResult cache args w.lookupClock
  if cached.length > 0 then (.ok cached, cache)
  else
    match searchLocaleTop w.memory w.order records args with
    | .error e => (.error e, cache)
    | .ok result => (.ok result, saveResultToCache cache args result w.saveClock)

end DealsServer
