import DealsServer.Spec.Deal
import DealsServer.Spec.SearchQuery
import Mathlib.Logic.Function.Basic
import Mathlib.Data.List.Sort

/-!
# Aggregations (`deals_cheapest.cpp`, `deals_cheapest_by_country.cpp`, `deals_cheapest_by_date.cpp`)

The three query classes group the matching deals by a key and keep one running best deal and a history
for each group. `process_deal` is the same in all three but for the key.

An `unordered_map` is a function with the keys in the order they came. The order it is iterated in is
the parameter `order`.
-/

namespace DealsServer

/-- The two maps of a query class. -/
structure Groups where
  /-- the running best deal; `operator[]` makes a missing one the zero record -/
  grouped : UInt32 → DealInfo
  hist : UInt32 → List DealInfo
  /-- the keys of `hist` -/
  keys : List UInt32

/-- The maps of a new query. -/
def Groups.empty : Groups := ⟨fun _ => .zero, fun _ => [], []⟩

/-- Makes `best` the running best deal of the group and adds `deal` to the history. -/
def Groups.store (s : Groups) (key : UInt32) (best deal : DealInfo) : Groups :=
  { grouped := Function.update s.grouped key best
    hist := Function.update s.hist key (s.hist key ++ [deal])
    keys := if key ∈ s.keys then s.keys else s.keys ++ [key] }

/-- The body of the three `process_deal`. -/
def processDealBy (key : DealInfo → UInt32) (s : Groups) (deal : DealInfo) : Groups :=
  let dstDeal := s.grouped (key deal)
  if dstDeal.price = 0 ∨ deal.price ≤ dstDeal.price then
    -- the same route and dates with an older timestamp is ignored
    if equal deal dstDeal ∧ dstDeal.timestamp > deal.timestamp then s
    else s.store (key deal) deal deal
  else if equal deal dstDeal ∧ dstDeal.timestamp < deal.timestamp then
    s.store (key deal) { deal with overriden := true } deal
  else s

/-- The body of the three `post_search`. -/
def postSearchBy (lt : DealInfo → DealInfo → Bool) (order : List UInt32 → List UInt32) (s : Groups) :
    List DealInfo :=
  ((order s.keys).map fun k => findCheapestAndLast (s.hist k)).mergeSort fun a b => !lt b a

/-- The three query classes. -/
inductive Aggregation
  | simplyCheapest
  | cheapestByCountry
  | cheapestByDay
  deriving DecidableEq, Repr

/-- What `CheapestByDay` adds to the query: its own flag. -/
structure DayQuery extends SearchQuery where
  groupByReturnDate : Bool
  deriving DecidableEq, Repr

/-- `CheapestByDay::getDateToGroup`. -/
def getDateToGroup (q : DayQuery) (deal : DealInfo) : UInt32 :=
  if q.filterExactDate then
    if q.exactDateValue = deal.returnDate then deal.departureDate else deal.returnDate ||| 0x80000000
  else if q.filterAllCombinations then deal.departureDate <<< 18 ^^^ deal.returnDate
  else if q.groupByReturnDate then deal.returnDate
  else deal.departureDate

/-- The comparison `post_search` sorts the deals by date with. -/
def dayLt (q : DayQuery) (a b : DealInfo) : Bool :=
  if q.filterExactDate then
    if q.exactDateValue = a.returnDate ∧ q.exactDateValue = b.returnDate then a.departureDate < b.departureDate
    else if q.exactDateValue = a.departureDate ∧ q.exactDateValue = b.departureDate then
      a.returnDate < b.returnDate
    else q.exactDateValue = a.returnDate
  else if q.groupByReturnDate then a.returnDate < b.returnDate
  else if a.departureDate = b.departureDate then a.returnDate < b.returnDate
  else a.departureDate < b.departureDate

/-- The key a class groups by. -/
def Aggregation.key (q : DayQuery) : Aggregation → DealInfo → UInt32
  | .simplyCheapest, deal => deal.destination
  | .cheapestByCountry, deal => deal.destinationCountry.toUInt32
  | .cheapestByDay, deal => getDateToGroup q deal

/-- The comparison a class sorts its result with. -/
def Aggregation.lt (q : DayQuery) : Aggregation → DealInfo → DealInfo → Bool
  | .cheapestByDay, a, b => dayLt q a b
  | _, a, b => a.price < b.price

/-- `process_deal`. -/
def Aggregation.processDeal (agg : Aggregation) (q : DayQuery) (s : Groups) (deal : DealInfo) : Groups :=
  processDealBy (agg.key q) s deal

/-- `post_search` and `get_result`. -/
def Aggregation.postSearch (agg : Aggregation) (q : DayQuery) (order : List UInt32 → List UInt32)
    (s : Groups) : List DealInfo :=
  postSearchBy (agg.lt q) order s

/-- `CheapestByDay::checkInputParams`. -/
def checkInputParams (q : DayQuery) : Except Thrown Unit :=
  if q.departureDateValues.duration = 0 ∧ q.returnDateValues.duration = 0 then
    raise (str "Departure or return dates interval must be specified\n")
  else if (q.filterDepartureDate ∧ q.departureDateValues.duration > 367) ∨
      (q.filterReturnDate ∧ q.returnDateValues.duration > 367) then
    raise (str "Date interval to large. 365 days is maximum\n")
  else if q.filterAllCombinations then
    if q.departureDateValues.duration = 0 ∨ q.returnDateValues.duration = 0 then
      raise (str "Departure and return dates must be specified, if all_combination flag is set\n")
    else if q.departureDateValues.duration > 11 ∨ q.returnDateValues.duration > 11 then
      raise (str "Departure and return dates interval must be <= 10, if all_combination flag is set\n")
    else .ok ()
  else .ok ()

/-- `CheapestByDay::pre_search`. The limit is a `uint16_t`. -/
def dayPreSearch (q : DayQuery) : Except Thrown DayQuery := do
  checkInputParams q
  if q.filterExactDate then
    if q.departureReturnMaxDuration ≠ 0 then
      return { q with filterResultLimit := q.departureReturnMaxDuration.toUInt16 }
    else return q
  else if q.filterAllCombinations then
    return { q with
      filterResultLimit := (q.departureDateValues.duration * q.returnDateValues.duration).toUInt16 }
  else if q.departureDateValues.duration ≤ 1 then
    let q := { q with groupByReturnDate := true }
    if q.returnDateValues.duration ≠ 0 then
      return { q with filterResultLimit := q.returnDateValues.duration.toUInt16 }
    else return q
  else
    return { q with filterResultLimit := q.departureDateValues.duration.toUInt16 }

/-- `pre_search` of the three classes. -/
def Aggregation.preSearch (q : DayQuery) : Aggregation → Except Thrown DayQuery
  | .simplyCheapest =>
    if q.filterAllCombinations then
      raise (str "all_combinations flag not implemented for cheapest aggregation\n")
    else .ok q
  | .cheapestByCountry =>
    let q := if q.filterDestinationCountry then
      { q with filterResultLimit := q.destinationCountrySet.length.toUInt16 } else q
    if q.filterAllCombinations then
      raise (str "all_combinations flag not implemented for by_country aggregation\n")
    else .ok q
  | .cheapestByDay => dayPreSearch q

end DealsServer
