import DealsServer.Spec.Cheapest
import DealsServer.Spec.Http

/-!
# Searches (`deals_query.cpp`, `DealsDatabase::searchFor`, `DealsServer::getTop`)

`TopParams.parse` reads the request of `/deals/top`, `buildQuery` runs the setters of `searchFor`,
`processElement` is the filter of `DealsSearchQuery`, and `searchFor` the whole search.
-/

namespace DealsServer

/-- `DEALS_EXPIRES`. -/
def dealsExpires : UInt32 := 60 * 60 * 24

/-! ## The request of `/deals/top` -/

/-- The parameters of `getTop`. -/
structure TopParams where
  origin : UInt32
  destinations : IATACodes
  destinationCountries : CountryCodes
  departureDateFrom : Date
  departureDateTo : Date
  returnDateFrom : Date
  returnDateTo : Date
  dweekdays : Weekdays
  rweekdays : Weekdays
  stayFrom : Number
  stayTo : Number
  timelimit : Number
  dealsLimit : Number
  directFlights : Boolean
  roundtripFlights : Boolean
  addLocaleTop : Boolean
  groupByDate : Boolean
  groupByCountry : Boolean
  locale : CountryCode
  departureOrReturnDate : Date
  allCombinations : Boolean
  deriving DecidableEq, Repr

/-- The constructors of `getTop`. -/
def TopParams.read (params : ObjectMap) : Except Thrown TopParams := do
  let origin ← requiredParam IATACode.parse params "origin"
  let destinations ← optionalParam IATACodes.parse params "destinations"
  let destinationCountries ← optionalParam CountryCodes.parse params "destination_countries"
  let departureDateFrom ← optionalParam Date.parse params "departure_date_from"
  let departureDateTo ← optionalParam Date.parse params "departure_date_to"
  let returnDateFrom ← optionalParam Date.parse params "return_date_from"
  let returnDateTo ← optionalParam Date.parse params "return_date_to"
  let dweekdays ← optionalParam Weekdays.parse params "departure_days_of_week"
  let rweekdays ← optionalParam Weekdays.parse params "return_days_of_week"
  let stayFrom ← optionalParam Number.parse params "stay_from"
  let stayTo ← optionalParam Number.parse params "stay_to"
  let timelimit ← optionalParam Number.parse params "timelimit"
  let dealsLimit ← optionalParam Number.parse params "deals_limit"
  let directFlights ← optionalParam Boolean.parse params "direct_flights"
  let roundtripFlights ← optionalParam Boolean.parse params "roundtrip_flights"
  let addLocaleTop ← optionalParam Boolean.parse params "add_locale_top"
  let groupByDate ← optionalParam Boolean.parse params "group_by_date"
  let groupByCountry ← optionalParam Boolean.parse params "group_by_country"
  let locale ← optionalParam CountryCode.parse params "locale"
  let departureOrReturnDate ← optionalParam Date.parse params "departure_or_return_date"
  let allCombinations ← optionalParam Boolean.parse params "all_combinations"
  return {
    origin, destinations, destinationCountries, departureDateFrom, departureDateTo, returnDateFrom
    returnDateTo, dweekdays, rweekdays, stayFrom, stayTo, timelimit, dealsLimit, directFlights
    roundtripFlights, addLocaleTop, groupByDate, groupByCountry, locale, departureOrReturnDate
    allCombinations }

/-- The date check of `getTop`. -/
def TopParams.badDates (p : TopParams) : Bool :=
  p.returnDateFrom.gt p.returnDateTo || p.departureDateFrom.gt p.departureDateTo ||
    p.departureDateFrom.gt p.returnDateFrom || p.departureDateFrom.gt p.returnDateTo ||
    p.departureDateTo.gt p.returnDateTo

/-- The parameters `getTop` searches with. `localeTop` is what `getLocaleTop` returns for them; its codes
are added to the destinations. -/
def TopParams.parse (localeTop : TopParams → Except Thrown (List UInt32)) (params : ObjectMap) :
    Except Thrown TopParams := do
  let p ← TopParams.read params
  if p.badDates then
    raise (str "Bad date parameters in request\n")
  else if p.addLocaleTop = some true then
    if p.locale = none then
      raise (str "No locale provided on add_locale_top=true\n")
    else
      let result ← localeTop p
      let destinations ← result.foldlM IATACodes.addCode p.destinations
      return { p with destinations := destinations }
  else return p

/-- The aggregation `getTop` chooses. -/
def TopParams.aggregation (p : TopParams) : Aggregation :=
  if p.groupByDate = some true then .cheapestByDay
  else if p.groupByCountry = some true then .cheapestByCountry
  else .simplyCheapest

/-! ## The search -/

/-- The setters of `searchFor`, on a query constructed in the memory `u`. -/
def buildQuery (u : Uninit) (now : UInt32) (p : TopParams) : Except Thrown SearchQuery := do
  let q := (SearchQuery.init u).origin (some p.origin)
  let q ← q.destinations p.destinations
  let q ← q.destinationCountries p.destinationCountries
  let q ← q.departureDates p.departureDateFrom p.departureDateTo
  let q ← q.returnDates p.returnDateFrom p.returnDateTo
  let q := q.departureWeekdays p.dweekdays
  let q := q.returnWeekdays p.rweekdays
  let q ← q.stayDays p.stayFrom p.stayTo
  let q := q.directFlights p.directFlights
  let q := q.roundtripFlights p.roundtripFlights
  let q := q.maxLifetimeSec now p.timelimit
  let q ← q.resultLimit p.dealsLimit
  let q := q.exactDepartureOrReturnDate p.departureOrReturnDate
  let q := q.calcDepartueReturnMaxDuration p.departureDateFrom p.departureDateTo p.returnDateFrom p.returnDateTo
  return q.allCombinations p.allCombinations

/-- `DealsSearchQuery::process_element`: the record reaches `process_deal`. -/
def processElement (q : SearchQuery) (deal : DealInfo) : Bool :=
  if deal.timestamp ≤ q.minTimestamp then false
  else if q.filterOrigin ∧ q.originValue ≠ deal.origin then false
  else if q.filterTimestamp ∧ q.timestampValue > deal.timestamp then false
  else if q.filterFlightByRoundtrip ∧ q.roundtripFlightFlag ∧ deal.returnDate = 0 then false
  else if q.filterFlightByRoundtrip ∧ ¬ q.roundtripFlightFlag ∧ deal.returnDate ≠ 0 then false
  else if q.filterDestination ∧ deal.destination ∉ q.destinationValuesSet then false
  else if q.filterDestinationCountry ∧ deal.destinationCountry ∉ q.destinationCountrySet then false
  else if q.filterDepartureDate ∧ (deal.departureDate < q.departureDateValues.dateFrom ∨
      deal.departureDate > q.departureDateValues.dateTo) then false
  else if q.filterReturnDate ∧ (deal.returnDate < q.returnDateValues.dateFrom ∨
      deal.returnDate > q.returnDateValues.dateTo) then false
  else if q.filterExactDate ∧ deal.returnDate ≠ q.exactDateValue ∧ deal.departureDate ≠ q.exactDateValue then
    false
  else if q.filterStayDays ∧ (deal.stayDays < q.stayDaysValues.stayFrom ∨
      deal.stayDays > q.stayDaysValues.stayTo) then false
  else if q.filterFlightByStops ∧ q.directFlightsFlag ≠ deal.direct then false
  else if q.filterDepartureWeekdays ∧ deal.departureDayOfWeek &&& q.departureWeekdaysBitmask = 0 then false
  else if q.filterReturnWeekdays ∧ deal.returnDayOfWeek &&& q.returnWeekdaysBitmask = 0 then false
  else true

/-- `min_timestamp`: records at or below it are expired. -/
def minTimestamp (globalExpireAt now : UInt32) : UInt32 := max globalExpireAt now - dealsExpires

/-- What reading shared memory may throw: a `types::Error` with code `InternalError`, or another
exception. -/
inductive StorageFault
  | internalError (message : Bytes)
  | other
  deriving DecidableEq, Repr

/-- The fault as an exception. -/
def StorageFault.thrown : StorageFault → Thrown
  | .internalError message => .error ⟨message, .internalError⟩
  | .other => .other

/-- What a search meets: the clock of `max_lifetime_sec`, the clock and `global_expire_at` of `execute`,
the records that `processRecords` delivers or its exception, the order the unordered maps are iterated
in, and the payload of a record or the exception of reading it. -/
structure SearchWorld where
  lifetimeClock : UInt32
  clock : UInt32
  globalExpireAt : UInt32
  records : Except StorageFault (List DealInfo)
  order : List UInt32 → List UInt32
  payload : DealInfo → Except StorageFault Bytes
  orderPerm : ∀ l, (order l).Perm l

/-- `DealsSearchQuery::execute`. -/
def execute (agg : Aggregation) (w : SearchWorld) (q : SearchQuery) : Except Thrown (List DealInfo) := do
  let q ← agg.preSearch { q with groupByReturnDate := false }
  let q := { q with minTimestamp := minTimestamp w.globalExpireAt w.clock }
  let records ← w.records.mapError StorageFault.thrown
  let groups := (records.filter (processElement q.toSearchQuery)).foldl (agg.processDeal q) Groups.empty
  return (agg.postSearch q w.order groups).take q.filterResultLimit.toNat

/-- `DealsDatabase::searchFor`, with its query constructed in the memory `u`. -/
def searchFor (agg : Aggregation) (w : SearchWorld) (u : Uninit) (p : TopParams) : Except Thrown (List Bytes) := do
  let q ← buildQuery u w.lifetimeClock p
  let deals ← execute agg w q
  deals.mapM fun deal => (w.payload deal).mapError StorageFault.thrown

end DealsServer
