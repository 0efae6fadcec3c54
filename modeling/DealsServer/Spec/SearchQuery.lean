import DealsServer.Spec.Types
import Mathlib.Data.UInt

/-!
# Search filters (`search_query.cpp`)

`SearchQuery` has all members of `query::SearchQuery`. Those without an initialiser are in `Uninit`, the
memory the object is constructed in. Each setter leaves the query as it is when its parameter is
undefined.
-/

namespace DealsServer

/-- `DateInterval`. -/
structure DateInterval where
  dateFrom : UInt32
  dateTo : UInt32
  duration : UInt32
  deriving DecidableEq, Repr

/-- `StayInterval`. -/
structure StayInterval where
  stayFrom : UInt8
  stayTo : UInt8
  deriving DecidableEq, Repr

/-- The members of `SearchQuery` that no initialiser sets. -/
structure Uninit where
  originValue : UInt32
  departureDateValues : DateInterval
  returnDateValues : DateInterval
  exactDateValue : UInt32
  timestampValue : UInt32
  directFlightsFlag : Bool
  roundtripFlightFlag : Bool
  departureWeekdaysBitmask : UInt8
  returnWeekdaysBitmask : UInt8
  stayDaysValues : StayInterval
  localeValue : UInt8
  deriving DecidableEq, Repr

/-- `query::SearchQuery`. -/
structure SearchQuery extends Uninit where
  departureReturnMaxDuration : UInt32
  minTimestamp : UInt32
  filterOrigin : Bool
  filterDestination : Bool
  destinationValuesSet : List UInt32
  filterDestinationCountry : Bool
  destinationCountrySet : List UInt8
  filterDepartureDate : Bool
  filterReturnDate : Bool
  filterExactDate : Bool
  filterTimestamp : Bool
  filterFlightByStops : Bool
  filterFlightByRoundtrip : Bool
  filterDepartureWeekdays : Bool
  filterReturnWeekdays : Bool
  filterStayDays : Bool
  filterResultLimit : UInt16
  filterLocale : Bool
  filterAllCombinations : Bool
  deriving DecidableEq, Repr

namespace SearchQuery

/-- A query constructed in the memory `u`. -/
def init (u : Uninit) : SearchQuery :=
  { u with
    departureReturnMaxDuration := 0
    minTimestamp := 0
    filterOrigin := false
    filterDestination := false
    destinationValuesSet := []
    filterDestinationCountry := false
    destinationCountrySet := []
    filterDepartureDate := false
    filterReturnDate := false
    filterExactDate := false
    filterTimestamp := false
    filterFlightByStops := false
    filterFlightByRoundtrip := false
    filterDepartureWeekdays := false
    filterReturnWeekdays := false
    filterStayDays := false
    filterResultLimit := 20
    filterLocale := false
    filterAllCombinations := false }

/-- `unordered_set::insert`. -/
def insertSet {α : Type} [DecidableEq α] (set : List α) (x : α) : List α := if x ∈ set then set else set ++ [x]

/-- `origin`. -/
def origin (q : SearchQuery) (origin : IATACode) : SearchQuery :=
  match origin with
  | none => q
  | some code => { q with filterOrigin := true, originValue := code }

/-- `destinations`. -/
def destinations (q : SearchQuery) (destinations : IATACodes) : Except Thrown SearchQuery :=
  match destinations with
  | none => .ok q
  | some codes => do
    let values ← codes.mapM IATACode.getCode
    let set := values.foldl insertSet []
    return { q with
      destinationValuesSet := set, filterDestination := q.filterDestination || !set.isEmpty }

/-- `destination_countries`. -/
def destinationCountries (q : SearchQuery) (countries : CountryCodes) : Except Thrown SearchQuery :=
  match countries with
  | none => .ok q
  | some codes => do
    let values ← codes.mapM CountryCode.getCode
    let set := values.foldl insertSet []
    return { q with
      destinationCountrySet := set, filterDestinationCountry := q.filterDestinationCountry || !set.isEmpty }

/-- `max_lifetime_sec`, at the clock `now`. -/
def maxLifetimeSec (now : UInt32) (q : SearchQuery) (maxLifetime : Number) : SearchQuery :=
  match maxLifetime with
  | none => q
  | some v => { q with filterTimestamp := true, timestampValue := now - v }

/-- The interval that `departure_dates` and `return_dates` store. -/
def dateInterval (dateFrom dateTo : Date) : DateInterval :=
  { dateFrom := (dateFrom.map (·.code)).getD 0
    dateTo := (dateTo.map (·.code)).getD (2 ^ 32 - 1)
    duration := if dateFrom.isSome && dateTo.isSome then dateTo.daysAfter dateFrom + 1 else 0 }

/-- `departure_dates`. -/
def departureDates (q : SearchQuery) (dateFrom dateTo : Date) : Except Thrown SearchQuery :=
  if dateFrom.isNone && dateTo.isNone then .ok q
  else
    let values := dateInterval dateFrom dateTo
    if values.dateFrom > values.dateTo then
      raise (str "departure_dates departure_date_from > departure_date_to\n")
    else .ok { q with filterDepartureDate := true, departureDateValues := values }

/-- `return_dates`. -/
def returnDates (q : SearchQuery) (dateFrom dateTo : Date) : Except Thrown SearchQuery :=
  if dateFrom.isNone && dateTo.isNone then .ok q
  else
    let values := dateInterval dateFrom dateTo
    if values.dateFrom > values.dateTo then
      raise (str "departure_dates return_date_from > return_date_to\n")
    else .ok { q with filterReturnDate := true, returnDateValues := values }

/-- `exact_departure_or_return_date`. -/
def exactDepartureOrReturnDate (q : SearchQuery) (exactDate : Date) : SearchQuery :=
  match exactDate with
  | none => q
  | some d => { q with filterExactDate := true, exactDateValue := d.code }

/-- `calc_departue_return_max_duration`. -/
def calcDepartueReturnMaxDuration (q : SearchQuery) (departureFrom departureTo returnFrom returnTo : Date) :
    SearchQuery :=
  if departureFrom.isSome && returnTo.isSome then
    { q with departureReturnMaxDuration := returnTo.daysAfter departureFrom + 1 }
  else
    let depRange := if departureFrom.isSome && departureTo.isSome then
      departureTo.daysAfter departureFrom + 1 else 0
    let retRange := if returnFrom.isSome && returnTo.isSome then returnTo.daysAfter returnFrom + 1 else 0
    { q with departureReturnMaxDuration := if depRange > retRange then depRange else retRange }

/-- `stay_days`. -/
def stayDays (q : SearchQuery) (stayFrom stayTo : Number) : Except Thrown SearchQuery :=
  if stayFrom.isNone && stayTo.isNone then .ok q
  else if stayFrom.any (· > 255) then raise (str "stay_from > 255")
  else if stayTo.any (· > 255) then raise (str "stay_to > 255")
  else
    let values : StayInterval := ⟨(stayFrom.getD 0).toUInt8, (stayTo.getD 255).toUInt8⟩
    if values.stayFrom > values.stayTo then raise (str "stay_from > stay_to")
    else .ok { q with filterStayDays := true, stayDaysValues := values }

/-- `departure_weekdays`. -/
def departureWeekdays (q : SearchQuery) (daysOfWeek : Weekdays) : SearchQuery :=
  match daysOfWeek with
  | none => q
  | some mask => { q with filterDepartureWeekdays := true, departureWeekdaysBitmask := mask }

/-- `return_weekdays`. -/
def returnWeekdays (q : SearchQuery) (daysOfWeek : Weekdays) : SearchQuery :=
  match daysOfWeek with
  | none => q
  | some mask => { q with filterReturnWeekdays := true, returnWeekdaysBitmask := mask }

/-- `direct_flights`. -/
def directFlights (q : SearchQuery) (direct : Boolean) : SearchQuery :=
  match direct with
  | none => q
  | some b => { q with filterFlightByStops := true, directFlightsFlag := b }

/-- `roundtrip_flights`. -/
def roundtripFlights (q : SearchQuery) (roundtrip : Boolean) : SearchQuery :=
  match roundtrip with
  | none => q
  | some b => { q with filterFlightByRoundtrip := true, roundtripFlightFlag := b }

/-- `result_limit`. -/
def resultLimit (q : SearchQuery) (limit : Number) : Except Thrown SearchQuery :=
  match limit with
  | none => .ok q
  | some v =>
    if v > 0 ∧ v ≤ 367 then .ok { q with filterResultLimit := v.toUInt16 }
    else raise (str "deals_limit to big\n")

/-- `all_combinations`. -/
def allCombinations (q : SearchQuery) (flag : Boolean) : SearchQuery :=
  match flag with
  | none => q
  | some b => { q with filterAllCombinations := b }

end SearchQuery

end DealsServer
