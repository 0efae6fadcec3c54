import DealsServer.Spec.Strings

/-!
# Index records (`deals_types.cpp`)

`DealInfo` is `deals::i::DealInfo`, one record of the index table.
-/

namespace DealsServer

/-- `deals::i::DealInfo`. -/
structure DealInfo where
  timestamp : UInt32
  origin : UInt32
  destination : UInt32
  departureDate : UInt32
  returnDate : UInt32
  price : UInt32
  stayDays : UInt8
  destinationCountry : UInt8
  departureDayOfWeek : UInt8
  returnDayOfWeek : UInt8
  direct : Bool
  overriden : Bool
  pageName : Bytes
  index : UInt32
  size : UInt32
  deriving DecidableEq, Repr

/-- A value-initialised record. -/
def DealInfo.zero : DealInfo := ⟨0, 0, 0, 0, 0, 0, 0, 0, 0, 0, false, false, [], 0, 0⟩

/-- `utils::equal`: the same itinerary. -/
def equal (d1 d2 : DealInfo) : Bool :=
  d1.departureDate = d2.departureDate && d1.returnDate = d2.returnDate && d1.direct = d2.direct &&
    d1.destination = d2.destination && d1.origin = d2.origin

/-- The loop of `findCheapestAndLast` over `history[i..len)`. A deal there that outdates `last_deal` makes
`history[len]` the last deal and starts again below it; `i = 0; continue` goes on at index 1. -/
def findLoop (history : List DealInfo) : ℕ → ℕ → DealInfo → DealInfo
  | 0, _, lastDeal => lastDeal
  | len + 1, i, lastDeal =>
    if ((history.take (len + 1)).drop i).any fun d => equal d lastDeal && d.timestamp > lastDeal.timestamp then
      findLoop history len 1 (history.getD (len + 1) .zero)
    else lastDeal

/-- `findCheapestAndLast`. -/
def findCheapestAndLast (history : List DealInfo) : DealInfo :=
  match history with
  | [] => .zero
  | _ => findLoop history (history.length - 1) 0 (history.getD (history.length - 1) .zero)

/-- The variables of `findCheapestAndLast` between two turns of its loop. -/
structure FindState where
  i : ℕ
  len : ℕ
  lastDeal : DealInfo
  deriving DecidableEq, Repr

/-- One turn of the loop: the next state, or the deal returned; `none` is a read outside of the history. The `int i`
does not overflow, as a history is no longer than the index table. -/
def findTurn (history : List DealInfo) (s : FindState) : Option (FindState ⊕ DealInfo) :=
  if s.i < s.len then do
    let d ← history[s.i]?
    if equal d s.lastDeal && d.timestamp > s.lastDeal.timestamp then
      let lastDeal ← history[s.len]?
      if s.len = 0 then return .inr lastDeal
      else return .inl ⟨1, s.len - 1, lastDeal⟩
    else return .inl { s with i := s.i + 1 }
  else return .inr s.lastDeal

/-- The loop for at most the given number of turns; `none` is a loop that has not ended by then, too. -/
def findTurns (history : List DealInfo) : ℕ → FindState → Option DealInfo
  | 0, _ => none
  | n + 1, s =>
    match findTurn history s with
    | some (.inl s) => findTurns history n s
    | some (.inr d) => some d
    | none => none

/-- `findCheapestAndLast` with its reads checked and its turns counted. -/
def findCheapestAndLastIn (turns : ℕ) (history : List DealInfo) : Option DealInfo :=
  if history.length = 0 then some .zero
  else do
    let lastDeal ← history[history.length - 1]?
    findTurns history turns ⟨0, history.length - 1, lastDeal⟩

end DealsServer
