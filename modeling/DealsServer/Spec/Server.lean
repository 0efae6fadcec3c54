import DealsServer.Spec.Http
import DealsServer.Spec.Tcp
import DealsServer.Spec.Types
import DealsServer.Lib.Run

/-!
# The server (`deals_server.cpp`)

`onData` is `DealsServer::on_data`, `DealsServer.process` one turn of the main loop. The request
handlers work on the databases, of which nothing is assumed here; each ends with one
`conn.close(response)` or throws before it.
-/

namespace DealsServer

/-- What a request is answered by. -/
inductive Route
  | getTop
  | getUniqueRoutes
  | getStats
  | getDestiantionsTop
  | dealsClear
  | destinationsClear
  | clear
  | ping
  | quit
  | addDeal
  | unknown
  deriving DecidableEq, Repr

/-- The dispatch of `on_data`. -/
def route (method path : Bytes) : Route :=
  if method = str "GET" then
    if path = str "/deals/top" then .getTop
    else if path = str "/deals/uniqueRoutes" then .getUniqueRoutes
    else if path = str "/deals/stats" then .getStats
    else if path = str "/destinations/top" then .getDestiantionsTop
    else if path = str "/deals/clear" then .dealsClear
    else if path = str "/destinations/clear" then .destinationsClear
    else if path = str "/clear" then .clear
    else if path = str "/ping" then .ping
    else if path = str "/quit" then .quit
    else .unknown
  else if method = str "POST" then if path = str "/deals/add" then .addDeal else .unknown
  else .unknown

/-- The handlers over the databases `D`: the response they close the connection with, or what they
throw. -/
structure Handlers (D : Type*) where
  getTop : HttpParser → D → Except Thrown HttpResponse × D
  getUniqueRoutes : D → Except Thrown HttpResponse × D
  getStats : D → Except Thrown HttpResponse × D
  getDestiantionsTop : HttpParser → D → Except Thrown HttpResponse × D
  addDeal : HttpParser → D → Except Thrown HttpResponse × D
  truncateDb : D → Except Thrown Unit × D
  truncateDst : D → Except Thrown Unit × D

/-- The connection context, with the history of the requests executed. -/
structure Context where
  http : HttpParser
  executed : List Route
  deriving DecidableEq, Repr

/-- The members of `DealsServer` that all connections share. -/
structure Shared (D : Type*) where
  db : D
  quitRequest : Bool

/-- `HttpResponse(status_code, reason_phrase, body)`. -/
def HttpResponse.withBody (statusCode : ℕ) (reasonPhrase body : String) : HttpResponse :=
  ⟨statusCode, str reasonPhrase, [], [str body]⟩

/-- The response of `terminateWithError`. -/
def errorResponse (err : Error) : HttpResponse :=
  match err.code with
  | .badParameter => ⟨400, str "Bad request", [], [err.message]⟩
  | .internalError => ⟨500, str "Internal Server Error", [], [err.message]⟩

/-- The error of a request whose request line cannot be parsed. -/
def badFormat (http : HttpParser) : Error :=
  ⟨str "Bad HTTP Request format <" ++ http.getRequestLine ++ str ">", .internalError⟩

/-- What the `catch` clauses of `on_data` answer. -/
def catchThrown : Except Thrown HttpResponse → HttpResponse
  | .ok response => response
  | .error (.error err) => errorResponse err
  | .error .other => errorResponse ⟨str "Something is broken inside me\n", .internalError⟩

section OnData

variable {D : Type*} (h : Handlers D)

/-- The `try` block of `on_data`. -/
def dispatch (s : Shared D) (http : HttpParser) : Route → Except Thrown HttpResponse × Shared D
  | .getTop => let (res, db) := h.getTop http s.db; (res, { s with db := db })
  | .getUniqueRoutes => let (res, db) := h.getUniqueRoutes s.db; (res, { s with db := db })
  | .getStats => let (res, db) := h.getStats s.db; (res, { s with db := db })
  | .getDestiantionsTop => let (res, db) := h.getDestiantionsTop http s.db; (res, { s with db := db })
  | .addDeal => let (res, db) := h.addDeal http s.db; (res, { s with db := db })
  | .dealsClear =>
    let (res, db) := h.truncateDb s.db
    (res.map fun _ => .withBody 200 "OK" "deals cleared\n", { s with db := db })
  | .destinationsClear =>
    let (res, db) := h.truncateDst s.db
    (res.map fun _ => .withBody 200 "OK" "destinations cleared\n", { s with db := db })
  | .clear =>
    match h.truncateDb s.db with
    | (.error e, db) => (.error e, { s with db := db })
    | (.ok _, db) =>
      let (res, db) := h.truncateDst db
      (res.map fun _ => .withBody 200 "OK" "ALL cleared\n", { s with db := db })
  | .ping => (.ok (.withBody 200 "OK" "pong\n"), s)
  | .quit => (.ok (.withBody 200 "OK" "quiting...\n"), { s with quitRequest := true })
  | .unknown => (.ok (.withBody 404 "Not Found" "Method unknown\n"), s)

/-- `conn.close(response)`. -/
def Connection.respond (c : Connection Context) (response : HttpResponse) : Connection Context :=
  { c with toTCPConnection := c.closeWith response.toBytes }

/-- `DealsServer::on_data`. -/
def onData (s : Shared D) (c : Connection Context) : Shared D × Connection Context :=
  if s.quitRequest then
    (s, c.respond (.withBody 503 "Service unavailable" "Service unavailable\n"))
  else
    let http := c.context.http.write c.dataIn
    let c := { c with context := { c.context with http := http } }
    if http.badRequest then (s, c.respond (errorResponse (badFormat http)))
    else if !http.parsingComplete then (s, c)
    else
      let r := route http.request.method http.request.query.path
      let (res, s) := dispatch h s http r
      let c := { c with context := { c.context with executed := c.context.executed ++ [r] } }
      (s, c.respond (catchThrown res))

/-- The server; `exited` after `std::exit`. -/
structure Server (D : Type*) extends TCPServer (Shared D) Context where
  exited : Bool

/-- `DealsServer::process`. The number of connections is returned as a `uint16_t`. -/
def Server.process (s : Server D) (r : Round) : Server D :=
  if s.exited then s
  else
    let tcp := s.toTCPServer.process (onData h) ⟨HttpParser.init, []⟩ r
    let quitRequest := tcp.shared.quitRequest || r.signal
    { tcp with
      shared := { tcp.shared with quitRequest := quitRequest }
      exited := quitRequest && tcp.connections.length % 2 ^ 16 = 0 }

/-- The server as it starts. -/
def Server.start (db : D) : Server D := ⟨⟨⟨db, false⟩, [], [], 0⟩, false⟩

/-- All connections the server has accepted so far. -/
def Server.all (s : Server D) : List (Connection Context) := s.connections ++ s.deleted

end OnData

end DealsServer
