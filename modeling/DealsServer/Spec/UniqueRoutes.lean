import DealsServer.Lib.Decimal
import DealsServer.Spec.Deal
import Mathlib.Logic.Function.Basic

/-!
# Unique routes (`deals_unique_routes.cpp`)

`UniqueProcessor` keeps one deal for each route. The `unordered_map` is a function with its keys in the order
they came, and `order` is the order it is iterated in.
-/

namespace DealsServer

open Decimal

/-- `code_to_origin`. -/
def codeToOrigin (code : UInt32) : Bytes := [(code >>> 8).toUInt8, (code >>> 16).toUInt8, (code >>> 24).toUInt8]

/-- The key of a route. -/
def routeOf (deal : DealInfo) : UInt64 := (deal.origin.toUInt64 <<< 32) + deal.destination.toUInt64

/-- `UniqueProcessor`. -/
structure UniqueProcessor where
  /-- `grouped_by_routes`; `operator[]` makes a missing deal the zero record -/
  grouped : UInt64 → DealInfo
  keys : List UInt64

namespace UniqueProcessor

/-- A new processor. -/
def empty : UniqueProcessor := ⟨fun _ => .zero, []⟩

/-- The map after a lookup of the route, which is there then, and an assignment to it. -/
def store (s : UniqueProcessor) (key : UInt64) (deal : DealInfo) : UniqueProcessor :=
  { grouped := Function.update s.grouped key deal
    keys := if key ∈ s.keys then s.keys else s.keys ++ [key] }

/-- `process_element`. -/
def processElement (s : UniqueProcessor) (deal : DealInfo) : UniqueProcessor :=
  let dstDeal := s.grouped (routeOf deal)
  if dstDeal.price = 0 ∨ dstDeal.price ≥ deal.price then
    if dstDeal.price = deal.price ∧ dstDeal.timestamp > deal.timestamp then s.store (routeOf deal) dstDeal
    else s.store (routeOf deal) deal
  -- not cheaper but the same dates and stops: replace with newer results
  else if deal.departureDate = dstDeal.departureDate ∧ deal.returnDate = dstDeal.returnDate ∧
      deal.direct = dstDeal.direct ∧ dstDeal.timestamp < deal.timestamp then
    s.store (routeOf deal) { deal with overriden := true }
  else s.store (routeOf deal) dstDeal

/-- The deals that `getStringResults` prints. -/
def results (s : UniqueProcessor) (order : List UInt64 → List UInt64) : List DealInfo := (order s.keys).map s.grouped

/-- The line of a deal. -/
def line (deal : DealInfo) : Bytes :=
  codeToOrigin deal.origin ++ str "," ++ codeToOrigin deal.destination ++ str "," ++ decimal deal.price.toNat ++ str "\n"

/-- `getStringResults`. -/
def getStringResults (s : UniqueProcessor) (order : List UInt64 → List UInt64) : Bytes :=
  (s.results order).flatMap line

end UniqueProcessor

/-- `getUniqueRoutesRoutine`, over the records that `processRecords` delivers. -/
def uniqueRoutes (records : List DealInfo) : UniqueProcessor :=
  records.foldl UniqueProcessor.processElement UniqueProcessor.empty

end DealsServer
