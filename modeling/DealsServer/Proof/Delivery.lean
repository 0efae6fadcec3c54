import DealsServer.Proof.Ledger
import DealsServer.Proof.Responses

/-!
# From the network to the ledger

* `ledger_log`: the databases of the server are those of a ledger, over the requests it has executed.
* `delivered`: in every run of the server, everything a connection was sent is a refusal, or the reply to one of its own
  requests at its turn; and the reply to a search is an error, or a list of bodies that were posted before, on any
  connection, and not cleared since.
-/

namespace DealsServer

open Retention Sequential StateMachine

/-! ## Requests as events -/

namespace Site

/-- A server that starts, with no pages. -/
def start (worlds : ℕ → World) : Site := ⟨.init, worlds, 0⟩

/-- What a request means for the ledger. -/
def events (site : Site) (http : HttpParser) : List Event :=
  match http.route with
  | .getTop => [.request site.world (.getTop http.request.query.params)]
  | .getUniqueRoutes => [.request site.world .getUniqueRoutes]
  | .getStats => [.request site.world .getStats]
  | .getDestiantionsTop => [.request site.world (.getDestiantionsTop http.request.query.params)]
  | .addDeal => [.request site.world (.addDeal http.request.query.params http.getBody)]
  | .dealsClear => [.dealsClear site.world]
  | .destinationsClear => [.destinationsClear site.world]
  | .clear =>
    match (site.db.truncate site.world).1 with
    | .ok _ => [.dealsClear site.world, .destinationsClear (site.worlds (site.served + 1))]
    | .error _ => [.dealsClear site.world]
  | .ping | .quit | .unknown => []

/-- What a log means for the ledger. -/
def logEvents : Site → List (ℕ × HttpParser) → List Event
  | _, [] => []
  | site, e :: log => site.events e.2 ++ logEvents (serveHttp Site.handlers site e.2).2 log

theorem logEvents_append (site : Site) (log log' : List (ℕ × HttpParser)) :
    site.logEvents (log ++ log') =
      site.logEvents log ++ (after (serveHttp Site.handlers) site log).logEvents log' := by
  induction log generalizing site with
  | nil => rfl
  | cons e log ih =>
    show site.events e.2 ++ logEvents _ (log ++ log') = site.events e.2 ++ logEvents _ log ++ logEvents _ log'
    rw [ih, List.append_assoc]
    rfl

theorem logEvents_snoc (site : Site) (log : List (ℕ × HttpParser)) (e : ℕ × HttpParser) :
    site.logEvents (log ++ [e]) = site.logEvents log ++ (after (serveHttp Site.handlers) site log).events e.2 := by
  rw [logEvents_append]
  exact congrArg _ (List.append_nil _)

end Site

variable {s : Ledger} {site : Site}

/-- **A request does to the databases what its events do to the ledger.** -/
theorem ledger_events (hdb : s.db = site.db) (http : HttpParser) :
    (run Ledger.step s (site.events http)).db = (serveHttp Site.handlers site http).2.db := by
  unfold Site.events serveHttp
  cases http.route with
  | clear =>
    dsimp only [dispatch, Site.handlers, Site.truncated]
    rcases hclear : site.db.truncate site.world with ⟨err | ok, db'⟩
    · show (s.db.truncate site.world).2 = db'
      rw [hdb, hclear]
    · show ((s.db.truncate site.world).2.truncateDst (site.worlds (site.served + 1))).2 =
        (db'.truncateDst (site.worlds (site.served + 1))).2
      rw [hdb, hclear]
  | ping => exact hdb
  | quit => exact hdb
  | unknown => exact hdb
  | getTop => exact congrArg (fun db : Database => (db.serve site.world (.getTop http.request.query.params)).2) hdb
  | getUniqueRoutes => exact congrArg (fun db : Database => (db.serve site.world .getUniqueRoutes).2) hdb
  | getStats => exact congrArg (fun db : Database => (db.serve site.world .getStats).2) hdb
  | getDestiantionsTop =>
    exact congrArg (fun db : Database => (db.serve site.world (.getDestiantionsTop http.request.query.params)).2) hdb
  | addDeal =>
    exact congrArg (fun db : Database => (db.serve site.world (.addDeal http.request.query.params http.getBody)).2) hdb
  | dealsClear => exact congrArg (fun db : Database => (db.truncate site.world).2) hdb
  | destinationsClear => exact congrArg (fun db : Database => (db.truncateDst site.world).2) hdb

/-- **The databases are those of the ledger**, after every log. -/
theorem ledger_log (hdb : s.db = site.db) (log : List (ℕ × HttpParser)) :
    (run Ledger.step s (site.logEvents log)).db = (after (serveHttp Site.handlers) site log).db := by
  induction log using List.reverseRecOn with
  | nil => exact hdb
  | append_singleton log e ih =>
    rw [Site.logEvents_snoc, run_append, after_snoc]
    exact ledger_events ih e.2

/-! ## What was posted -/

/-- The request posts the body. -/
def Posts (body : Bytes) (e : ℕ × HttpParser) : Prop := e.2.route = .addDeal ∧ e.2.getBody = body

/-- The request clears the deals, and its client is told so. -/
def ClearsDeals (site : Site) (e : ℕ × HttpParser) : Prop :=
  (e.2.route = .dealsClear ∨ e.2.route = .clear) ∧ (serveHttp Site.handlers site e.2).1.statusCode = 200

/-- The body was posted, and since then no client was told that the deals are cleared. -/
def Posted (site : Site) (log : List (ℕ × HttpParser)) (body : Bytes) : Prop :=
  Since (fun site e => (serveHttp Site.handlers site e.2).2) (fun _ e => Posts body e) ClearsDeals site log

theorem errorResponse_code (err : Error) : (errorResponse err).statusCode ≠ 200 := by
  unfold errorResponse
  cases err.code with
  | badParameter => exact Nat.ne_of_beq_eq_false rfl
  | internalError => exact Nat.ne_of_beq_eq_false rfl

theorem catchThrown_code (e : Thrown) : (catchThrown (.error e)).statusCode ≠ 200 := by
  cases e with
  | error err => exact errorResponse_code err
  | other => exact errorResponse_code _

/-- A client is not told that the deals are cleared when `truncate` has failed. -/
theorem not_clearsDeals {err : TableError} (herr : (site.db.truncate site.world).1 = .error err) (e : ℕ × HttpParser) :
    ¬ ClearsDeals site e := by
  rintro ⟨hroute, hcode⟩
  refine absurd hcode ?_
  unfold serveHttp
  dsimp only
  obtain hroute | hroute := hroute
  · rw [hroute]
    dsimp only [dispatch, Site.handlers, Site.truncated]
    rw [herr]
    exact catchThrown_code _
  · rw [hroute]
    dsimp only [dispatch, Site.handlers, Site.truncated]
    rcases hres : site.db.truncate site.world with ⟨err' | ok, db'⟩
    · exact catchThrown_code _
    · rw [hres] at herr
      cases herr

/-- What a clear of the deals leaves in the ledger. -/
theorem mem_dealsClear {w : World} {x : DealInfo × Bytes} (hx : x ∈ (s.dealsClear w).created) :
    x ∈ s.created ∧ ∃ err, (s.db.truncate w).1 = .error err := by
  unfold Ledger.dealsClear at hx
  rcases hres : (s.db.truncate w).1 with err | ok
  · rw [hres] at hx
    exact ⟨hx, err, rfl⟩
  · rw [hres] at hx
    exact absurd hx List.not_mem_nil

/-- **A deal of the ledger** was there before the request and is not cleared by it, or the request has posted its
body. -/
theorem created_events (hdb : s.db = site.db) (e : ℕ × HttpParser) {x : DealInfo × Bytes}
    (hx : x ∈ (run Ledger.step s (site.events e.2)).created) :
    x ∈ s.created ∧ ¬ ClearsDeals site e ∨ Posts x.2 e := by
  have hother (hroute : e.2.route ≠ .dealsClear ∧ e.2.route ≠ .clear) : ¬ ClearsDeals site e :=
    fun h => h.1.elim hroute.1 hroute.2
  have hclears (hx : x ∈ (s.dealsClear site.world).created) : x ∈ s.created ∧ ¬ ClearsDeals site e := by
    obtain ⟨hold, err, herr⟩ := mem_dealsClear hx
    exact ⟨hold, not_clearsDeals (hdb ▸ herr) e⟩
  unfold Site.events at hx
  cases hroute : e.2.route <;> rw [hroute] at hx hother
  case addDeal =>
    have hserved : x ∈ (s.serve (site.world, .addDeal e.2.request.query.params e.2.getBody)).created := hx
    unfold Ledger.serve at hserved
    dsimp only at hserved
    rcases hparse : AddParams.parse e.2.request.query.params with err | p
    · rw [hparse] at hserved
      exact .inl ⟨hserved, hother ⟨by decide, by decide⟩⟩
    rw [hparse] at hserved
    rcases List.mem_append.1 hserved with hold | hadded
    · exact .inl ⟨hold, hother ⟨by decide, by decide⟩⟩
    · obtain ⟨info, -, rfl⟩ := List.mem_map.1 hadded
      exact .inr ⟨hroute, rfl⟩
  case dealsClear => exact .inl (hclears hx)
  case clear =>
    rcases hres : (site.db.truncate site.world).1 with err | ok
    · rw [hres] at hx
      exact .inl (hclears hx)
    · rw [hres] at hx
      exact .inl (hclears hx)
  all_goals exact .inl ⟨hx, hother ⟨by decide, by decide⟩⟩

/-- **All bodies of the ledger were posted**, and not cleared since. -/
theorem created_posted (hdb : site.db = .init) (log : List (ℕ × HttpParser)) :
    ∀ x ∈ (run Ledger.step .init (site.logEvents log)).created, Posted site log x.2 := by
  induction log using List.reverseRecOn with
  | nil => exact nofun
  | append_singleton log e ih =>
    intro x hx
    rw [Site.logEvents_snoc, run_append] at hx
    have hsame := ledger_log (s := .init) hdb.symm log
    obtain ⟨hold, hkept⟩ | hposts := created_events hsame e hx
    · exact (ih x hold).snoc hkept
    · exact since_last hposts

/-! ## Replies -/

/-- What a search was answered: an error, or bodies that were posted before. -/
def Delivered (site : Site) (log : List (ℕ × HttpParser)) (response : HttpResponse) : Prop :=
  (∃ err, response = errorResponse err) ∨
    ∃ result, response = writeTopResult result ∧ ∀ body ∈ result, Posted site log body

/-- The reply to a search, after a log along which the clock does not go back. -/
theorem reply_getTop (lead : ℕ) (hdb : site.db = .init) {log : List (ℕ × HttpParser)} {http : HttpParser}
    (hroute : http.route = .getTop)
    (hproper : Always Ledger.step (Ledger.Proper lead) .init
      (site.logEvents log ++ (after (serveHttp Site.handlers) site log).events http)) :
    Delivered site log (serveHttp Site.handlers (after (serveHttp Site.handlers) site log) http).1 := by
  set site' := after (serveHttp Site.handlers) site log with hsite'
  have hsame : (run Ledger.step .init (site.logEvents log)).db = site'.db := ledger_log hdb.symm log
  obtain ⟨hbefore, hsearch⟩ := (always_append _ _ _).1 hproper
  have hevents : site'.events http = [.request site'.world (.getTop http.request.query.params)] := by
    unfold Site.events
    rw [hroute]
  rw [hevents] at hsearch
  obtain ⟨-, hread⟩ := (booked_run hbefore).getTop hsearch.1
  rw [hsame] at hread
  have hreply : (serveHttp Site.handlers site' http).1 = catchThrown
      (((site'.db.getTop site'.world http.request.query.params).1.map Answer.deals).map Answer.response) := by
    unfold serveHttp
    rw [hroute]
    rfl
  rw [hreply]
  rcases hres : (site'.db.getTop site'.world http.request.query.params).1 with err | result
  · cases err with
    | error err => exact .inl ⟨err, rfl⟩
    | other => exact .inl ⟨⟨str "Something is broken inside me\n", .internalError⟩, rfl⟩
  · refine .inr ⟨result, rfl, fun body hbody => ?_⟩
    obtain ⟨p, q, shown, deals, -, -, -, -, hown⟩ := hread result hres
    obtain ⟨i, hi, rfl⟩ := List.getElem_of_mem hbody
    obtain ⟨⟨posted, hposted⟩, hsame⟩ := hown.get (hown.length_eq.symm ▸ hi) hi
    have hbodies : result[i] = posted := hsame posted hposted
    rw [hbodies]
    exact created_posted hdb log _ hposted

/-- **From the network to the ledger**: in every run of the server, one log of requests accounts for the databases, which
are those of a ledger, and for everything that was sent. If the clock does not go back along the log and the pages can be
opened, what a search was answered is made of bodies that were posted before, and not cleared since. -/
theorem delivered (lead : ℕ) (worlds : ℕ → World) (rounds : List Round) :
    ∃ log, Chronicle Site.handlers (.start worlds) log
        (run (Server.process Site.handlers) (Server.start (.start worlds)) rounds).shared.db
        (run (Server.process Site.handlers) (Server.start (.start worlds)) rounds).all ∧
      (run (Server.process Site.handlers) (Server.start (.start worlds)) rounds).shared.db.db =
        (run Ledger.step .init ((Site.start worlds).logEvents log)).db ∧
      ∀ c ∈ (run (Server.process Site.handlers) (Server.start (.start worlds)) rounds).all, ∀ msg ∈ c.written,
        Refusal msg ∨ ∃ pre http post, log = pre ++ (c.id, http) :: post ∧
          msg = (serveHttp Site.handlers (after (serveHttp Site.handlers) (.start worlds) pre) http).1.toBytes ∧
          (http.route = .getTop →
            Always Ledger.step (Ledger.Proper lead) .init ((Site.start worlds).logEvents log) →
            Delivered (.start worlds) pre
              (serveHttp Site.handlers (after (serveHttp Site.handlers) (.start worlds) pre) http).1) := by
  set site := Site.start worlds
  obtain ⟨log, -, hrecorded⟩ := (recorded_start (h := Site.handlers) site).run rounds
  have hchronicle := hrecorded.chronicle
  refine ⟨log, hchronicle, ?_, fun c hc msg hmsg => ?_⟩
  · rw [hchronicle.object]
    exact (ledger_log (s := .init) rfl log).symm
  obtain ⟨response, htold, rfl⟩ | hrefusal := (hchronicle.heard c hc).only msg hmsg
  · obtain ⟨pre, http, post, hlog, hreply⟩ := mem_replies (mem_ofClient.1 htold)
    have hresponse : response = (serveHttp Site.handlers (after (serveHttp Site.handlers) site pre) http).1 := hreply
    refine .inr ⟨pre, http, post, hlog, by rw [hresponse], fun hroute hproper => reply_getTop lead rfl hroute ?_⟩
    -- the conditions up to this request
    have hcut : site.logEvents log = site.logEvents pre ++ ((after (serveHttp Site.handlers) site pre).events http ++
        (serveHttp Site.handlers (after (serveHttp Site.handlers) site pre) http).2.logEvents post) := by
      rw [hlog, Site.logEvents_append]
      rfl
    rw [hcut, ← List.append_assoc, always_append] at hproper
    exact hproper.1
  · exact .inl hrefusal

/-- Two clients, a second apart: the conditions are met. -/
example {post top : HttpParser} (hpost : post.route = .addDeal) (htop : top.route = .getTop)
    (hbody : post.getBody.length < 2 ^ 32) : Always Ledger.step (Ledger.Proper 0) .init
      ((Site.start fun n => quietWorld (1000000 + n)).logEvents [(0, post), (1, top)]) := by
  have hevents : (Site.start fun n => quietWorld (1000000 + n)).logEvents [(0, post), (1, top)] =
      [.request (quietWorld 1000000) (.addDeal post.request.query.params post.getBody),
        .request (quietWorld 1000001) (.getTop top.request.query.params)] := by
    unfold Site.logEvents Site.logEvents Site.events serveHttp
    rw [hpost, htop]
    rfl
  rw [hevents]
  refine ⟨⟨?_, ?_, fun _ => ⟨rfl, rfl, rfl⟩, hbody, le_rfl, .inl rfl⟩, ⟨?_, ?_, fun _ => ⟨rfl, rfl, rfl⟩, trivial⟩, trivial⟩
  · show (0 :: List.replicate 7 1000000).Pairwise (· ≤ ·)
    decide
  · show ∀ t ∈ List.replicate 7 1000000, t + dealsExpires.toNat + removeExpiredPagesDelaySec < 2 ^ 32
    decide
  · show (1000000 :: List.replicate 8 1000001).Pairwise (· ≤ ·)
    decide
  · show ∀ t ∈ List.replicate 8 1000001, t + dealsExpires.toNat + removeExpiredPagesDelaySec < 2 ^ 32
    decide

end DealsServer
