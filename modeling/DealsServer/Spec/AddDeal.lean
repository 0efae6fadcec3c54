import DealsServer.Spec.Deal
import DealsServer.Spec.SharedMemory

/-!
# Adding a deal (`DealsServer::addDeal`, `DealsDatabase::addDeal`)

`AddParams.parse` reads the request of `/deals/add`, `dealRecord` is the index record made of it.
-/

namespace DealsServer

/-- The parameters of `addDeal`. The locale goes to the statistics of destinations only. -/
structure AddParams where
  returnDate : Date
  departureDate : DateParts
  price : UInt32
  locale : UInt8
  destinationCountry : UInt8
  origin : UInt32
  destination : UInt32
  directFlight : Bool
  deriving DecidableEq, Repr

/-- The constructors and checks of `DealsServer::addDeal`. -/
def AddParams.parse (params : ObjectMap) : Except Thrown AddParams := do
  let returnDate ← optionalParam Date.parse params "return_date"
  let departureDate ← requiredParam Date.parse params "departure_date"
  let price ← requiredParam Number.parse params "price"
  let locale ← requiredParam CountryCode.parse params "locale"
  let destinationCountry ← requiredParam CountryCode.parse params "destination_country"
  let origin ← requiredParam IATACode.parse params "origin"
  let destination ← requiredParam IATACode.parse params "destination"
  let directFlight ← requiredParam Boolean.parse params "direct_flight"
  if origin = destination then
    raise (str "Error origin = destination\n")
  else if Date.gt (some departureDate) returnDate then
    raise (str "departure date > return date\n")
  else
    return {
      returnDate, departureDate, price, locale, destinationCountry, origin, destination, directFlight }

/-- Where `addRecord` put the payload. -/
structure Location where
  pageName : Bytes
  index : UInt32
  size : UInt32
  deriving DecidableEq, Repr

/-- The days of stay in the record, at most `UINT8_MAX`. -/
def clampedStay (days : UInt32) : UInt8 := if days > 255 then 255 else days.toUInt8

/-- The record of `DealsDatabase::addDeal`, at the clock `now`. `stray` is the memory around the weekday
table. -/
def dealRecord (stray : ℤ → UInt8) (now : UInt32) (place : Location) (p : AddParams) : DealInfo where
  timestamp := now
  origin := p.origin
  destination := p.destination
  departureDate := p.departureDate.code
  returnDate := (p.returnDate.map (·.code)).getD 0
  price := p.price
  stayDays :=
    match p.returnDate with
    | none => 255
    | some d => clampedStay (Date.daysAfter (some d) (some p.departureDate))
  destinationCountry := p.destinationCountry
  departureDayOfWeek := Weekdays.ofDate stray (some p.departureDate)
  returnDayOfWeek := Weekdays.ofDate stray p.returnDate
  direct := p.directFlight
  overriden := false
  pageName := place.pageName.take mempageNameMaxLen
  index := place.index
  size := place.size

end DealsServer
