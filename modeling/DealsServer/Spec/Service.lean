import DealsServer.Spec.Database
import DealsServer.Spec.Server
import DealsServer.Spec.TopResult

/-!
# The service (`deals_server.cpp`)

The request handlers of `DealsServer` over its databases, from the parameters of a request to its response. `Site` has
the databases together with what the requests to come meet, in the order they come.
-/

namespace DealsServer

open Decimal

/-! ## Responses -/

/-- The response of `getUniqueRoutes`, `getStats` and `getDestiantionsTop` to an empty result. -/
def emptyResult (reasonPhrase : String) : HttpResponse :=
  (HttpResponse.mk 204 (str reasonPhrase) [] []).addHeader (str "Content-Length") (str "0")

/-- Their response to a text. -/
def textResult (text : Bytes) : HttpResponse :=
  (((HttpResponse.mk 200 (str "OK") [] []).addHeader (str "Content-Type") (str "text/plain")).addHeader
    (str "Content-Length") (decimal text.length)).write text

/-- The line of a destination in `getDestiantionsTop`. -/
def DstInfo.line (elm : DstInfo) : Bytes :=
  codeToOrigin elm.destination ++ str ";" ++ decimal elm.counter.toNat ++ str "\n"

/-- The text of `getDestiantionsTop`. -/
def destinationsText (result : List DstInfo) : Bytes := result.flatMap DstInfo.line

/-- The response that a handler closes the connection with. -/
def Answer.response : Answer → HttpResponse
  | .added => .withBody 200 "OK" "Well done\n"
  | .deals result => writeTopResult result
  | .routes text => if text.length = 0 then emptyResult "Empty result" else textResult text
  | .stats s =>
    if s.getStringResults.length = 0 then emptyResult "Empty result" else textResult s.getStringResults
  | .destinations result =>
    if result.length = 0 then emptyResult "empty result" else textResult (destinationsText result)
  | .cleared => .withBody 200 "OK" "ALL cleared\n"

/-! ## Handlers -/

/-- The databases of the server, what the requests to come meet, and how many have come. -/
structure Site where
  db : Database
  worlds : ℕ → World
  served : ℕ

namespace Site

/-- The next world. -/
def world (s : Site) : World := s.worlds s.served

/-- The site after a request. -/
def advance (s : Site) (db : Database) : Site := ⟨db, s.worlds, s.served + 1⟩

/-- A request in its world. -/
def serve (s : Site) (request : Request) : Except Thrown HttpResponse × Site :=
  let (res, db) := s.db.serve s.world request
  (res.map Answer.response, s.advance db)

/-- A call of `truncate` in its world. -/
def truncated (s : Site) (f : Database → World → Except TableError Unit × Database) : Except Thrown Unit × Site :=
  let (res, db) := f s.db s.world
  (res.mapError fun err => err.fault.thrown, s.advance db)

/-- The handlers of `DealsServer`. -/
def handlers : Handlers Site where
  getTop http s := s.serve (.getTop http.request.query.params)
  getUniqueRoutes s := s.serve .getUniqueRoutes
  getStats s := s.serve .getStats
  getDestiantionsTop http s := s.serve (.getDestiantionsTop http.request.query.params)
  addDeal http s := s.serve (.addDeal http.request.query.params http.getBody)
  truncateDb s := s.truncated Database.truncate
  truncateDst s := s.truncated Database.truncateDst

end Site

end DealsServer
