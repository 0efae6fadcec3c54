import DealsServer.Proof.OneExecution

/-!
# Quitting

* `quits_gracefully`: from the round on in which the server was asked to quit, no request is executed, the databases stay
  as they are, and all that is written is 503.
* `drains`: when nobody connects any more, the server exits at the latest when all connections are older than their
  lifetime and have been written what they have to send.

A connection that is never writable and never hangs up keeps the server from exiting: its lifetime closes it, but
`is_alive` keeps what has something to send.
-/

namespace DealsServer

open StateMachine

variable {D : Type*} (h : Handlers D)

/-- The answer to everything that is read while the server quits. -/
def unavailable : Bytes :=
  (HttpResponse.withBody 503 "Service unavailable" "Service unavailable\n").toBytes

/-! ## One connection -/

/-- What may happen to a connection while the server quits. -/
structure Refused (c c' : Connection Context) : Prop where
  id_eq : c'.id = c.id
  context_eq : c'.context = c.context
  written : ∃ n, c'.written = c.written ++ List.replicate n unavailable
  closed : c.connectionAlive = false → c'.connectionAlive = false

theorem Refused.refl (c : Connection Context) : Refused c c := ⟨rfl, rfl, ⟨0, by simp⟩, id⟩

theorem Refused.trans {c c' c'' : Connection Context} (h₁ : Refused c c') (h₂ : Refused c' c'') : Refused c c'' := by
  obtain ⟨n, hn⟩ := h₁.written
  obtain ⟨m, hm⟩ := h₂.written
  refine ⟨h₂.id_eq.trans h₁.id_eq, h₂.context_eq.trans h₁.context_eq, ⟨n + m, ?_⟩, fun hc => h₂.closed (h₁.closed hc)⟩
  rw [hm, hn, List.append_assoc, List.replicate_append_replicate]

/-- What writes nothing. -/
theorem Refused.quiet {c : Connection Context} {t : TCPConnection} (hwritten : t.written = c.written)
    (hclosed : c.connectionAlive = false → t.connectionAlive = false) :
    Refused c { c with toTCPConnection := t } :=
  ⟨rfl, rfl, ⟨0, by simpa using hwritten⟩, hclosed⟩

section Round

variable {sh : Shared D} {c : Connection Context} {r : Round}

theorem onData_quit (hquit : sh.quitRequest = true) (c : Connection Context) :
    onData h sh c = (sh, c.respond (.withBody 503 "Service unavailable" "Service unavailable\n")) := by
  simp [onData, hquit]

/-- A read is answered. -/
theorem readEvents_refused (hquit : sh.quitRequest = true) (c : Connection Context) (ev : Events) :
    Refused c (c.readEvents (onData h) sh ev) ∧
      (c.readEvents (onData h) sh ev).dataOut = c.dataOut ++ (if ev.pollin then unavailable else []) := by
  unfold Connection.readEvents
  split_ifs with hin
  · rw [onData_quit h hquit]
    refine ⟨⟨rfl, rfl, ⟨1, ?_⟩, fun _ => rfl⟩, ?_⟩
    · show (c.networkRead ev.read).written ++ [unavailable] = c.written ++ [unavailable]
      rw [networkRead_written]
    · show (c.networkRead ev.read).dataOut ++ unavailable = c.dataOut ++ unavailable
      rw [networkRead_dataOut]
  · exact ⟨.refl c, (List.append_nil _).symm⟩

/-- A round after the times are checked. -/
theorem refused_times (hquit : sh.quitRequest = true) (c : Connection Context) (r : Round) :
    Refused { c with toTCPConnection := c.checkTimes r.currentTime } (c.round (onData h) sh r) := by
  unfold Connection.round
  cases r.poll
  · exact .refl _
  · exact .refl _
  · obtain ⟨hread, -⟩ := readEvents_refused h hquit { c with toTCPConnection := c.checkTimes r.currentTime } (r.events c.id)
    simp only [handleEvents_snd]
    split_ifs
    · exact .quiet rfl fun _ => rfl
    · exact hread.trans (.quiet (networkWrite_written _ _ _) fun hc => networkWrite_alive hc _ _)
    · exact hread

/-- **A round while the server quits** executes nothing. -/
theorem round_refused (hquit : sh.quitRequest = true) (c : Connection Context) (r : Round) :
    Refused c (c.round (onData h) sh r) :=
  Refused.trans (.quiet (checkTimes_written _ _) fun hc => checkTimes_alive hc _) (refused_times h hquit c r)

/-- The connection is past its lifetime, or was idle for too long. -/
def Overdue (c : Connection Context) (r : Round) : Prop :=
  maxConnectionLifetimeSec < r.currentTime - c.createdTime ∨ maxConnectionIdleTimeSec < r.currentTime - c.lastBeatTime

theorem round_overdue (hquit : sh.quitRequest = true) (hold : Overdue c r) :
    (c.round (onData h) sh r).connectionAlive = false := by
  refine (refused_times h hquit c r).closed ?_
  show (c.checkTimes r.currentTime).connectionAlive = false
  unfold TCPConnection.checkTimes
  split_ifs with hlifetime hidle
  · rfl
  · rfl
  · exact absurd hold (not_or.2 ⟨hlifetime, hidle⟩)

/-- The round ends what the connection has to send: the client hangs up, or the socket is writable. An output of a
multiple of 2^32 bytes counts as none. -/
def EndsOutput (c : Connection Context) (r : Round) : Prop :=
  r.poll = .ready ∧ ((r.events c.id).pollhup = true ∨ (r.events c.id).pollout = true ∧
    (c.dataOut ++ (if (r.events c.id).pollin then unavailable else [])).length % 2 ^ 32 ≠ 0)

/-- A closed connection does not outlive the round that ends its output. -/
theorem round_released (hquit : sh.quitRequest = true) (hclosed : c.connectionAlive = false) (halive : c.isAlive = true)
    (hoff : EndsOutput c r) : (c.round (onData h) sh r).isAlive = false := by
  obtain ⟨hready, hends⟩ := hoff
  have hcloses := (round_refused h hquit c r).closed hclosed
  -- only its output keeps it alive
  have hsome : c.hasSomethingToSend = true := by simpa [TCPConnection.isAlive, hclosed] using halive
  have hnothing : (c.round (onData h) sh r).dataOut = [] := by
    obtain ⟨-, hout⟩ :=
      readEvents_refused h hquit { c with toTCPConnection := c.checkTimes r.currentTime } (r.events c.id)
    rw [show (c.checkTimes r.currentTime).dataOut = c.dataOut from checkTimes_dataOut _ _] at hout
    unfold Connection.round
    rw [hready]
    have hasked : (c.checkTimes r.currentTime).hasSomethingToSend = true := by
      simpa [TCPConnection.hasSomethingToSend] using hsome
    simp only [handleEvents_snd, hasked, Bool.and_true]
    by_cases hhup : (r.events c.id).pollhup = true
    · rw [if_pos hhup]
      rfl
    obtain ⟨hpollout, hlength⟩ := hends.resolve_left hhup
    rw [if_neg hhup, if_pos hpollout]
    unfold TCPConnection.networkWrite
    rw [hout, if_neg hlength]
    split_ifs <;> rfl
  simp [TCPConnection.isAlive, TCPConnection.hasSomethingToSend, hnothing, hcloses]

end Round

/-! ## Runs -/

section Process

variable {s : Server D}

/-- While the server quits, a round leaves the databases alone. -/
theorem process_shared (hquit : s.shared.quitRequest = true) (r : Round) : (s.process h r).shared = s.shared := by
  cases hexit : s.exited
  swap
  · rw [s.process_exited h r hexit]
  have hkeep : ∀ (sh : Shared D) (c : Connection Context), sh = s.shared → (onData h sh c).1 = s.shared := by
    rintro sh c rfl
    rw [onData_quit h hquit]
  have htcp : (s.toTCPServer.process (onData h) ⟨HttpParser.init, []⟩ r).shared = s.shared := by
    unfold TCPServer.process
    cases r.poll
    · rfl
    · rfl
    · have hloop := handleAll_keeps hkeep r.events s.shared (s.checked r) rfl
      cases r.accept <;> exact hloop
  unfold Server.process
  rw [hexit]
  show { (s.toTCPServer.process (onData h) ⟨HttpParser.init, []⟩ r).shared with
    quitRequest := (s.toTCPServer.process (onData h) ⟨HttpParser.init, []⟩ r).shared.quitRequest || r.signal } = s.shared
  rw [htcp]
  show (⟨s.shared.db, s.shared.quitRequest || r.signal⟩ : Shared D) = s.shared
  rw [hquit, Bool.true_or, ← hquit]

theorem accepted_process (s : Server D) (r : Round) : s.accepted ≤ (s.process h r).accepted := by
  cases hexit : s.exited
  swap
  · rw [s.process_exited h r hexit]
  unfold Server.process TCPServer.process
  rw [hexit]
  cases r.poll
  · exact le_rfl
  · exact le_rfl
  · cases r.accept
    · exact le_rfl
    · exact Nat.le_succ _

/-- A connection after a round was there before it, or was accepted in it. -/
theorem process_refused (hquit : s.shared.quitRequest = true) (r : Round) {c' : Connection Context}
    (hc' : c' ∈ (s.process h r).all) :
    ∃ c, (c ∈ s.all ∨ ∃ now id, s.accepted ≤ id ∧ c = Connection.fresh now id) ∧ Refused c c' := by
  cases hexit : s.exited
  swap
  · rw [s.process_exited h r hexit] at hc'
    exact ⟨c', .inl hc', .refl c'⟩
  obtain ⟨cs, hconn, hdel, hfrom, -⟩ := s.round_cases h r hexit
  rw [Server.all, hconn, hdel, List.mem_append, List.mem_append] at hc'
  have hcs (hmem : c' ∈ cs) :
      ∃ c, (c ∈ s.all ∨ ∃ now id, s.accepted ≤ id ∧ c = Connection.fresh now id) ∧ Refused c c' := by
    obtain ⟨c, hc, sh, hduring, rfl⟩ | ⟨now, rfl⟩ := hfrom c' hmem
    · exact ⟨c, .inl (List.mem_append_left _ hc), round_refused h (hduring.1 hquit) c r⟩
    · exact ⟨_, .inr ⟨now, _, le_rfl, rfl⟩, .refl _⟩
  rcases hc' with hc' | hc' | hc'
  · exact hcs (List.mem_filter.1 hc').1
  · exact ⟨c', .inl (List.mem_append_right _ hc'), .refl c'⟩
  · exact hcs (List.mem_filter.1 hc').1

/-- Without a new connection, the connections after a round are those that are still alive. -/
theorem mem_process_connections (hquit : s.shared.quitRequest = true) (hexit : s.exited = false) {r : Round}
    (haccept : r.accept = none) {c' : Connection Context} (hc' : c' ∈ (s.process h r).connections) :
    c'.isAlive = true ∧ ∃ c ∈ s.connections, ∃ sh : Shared D, sh.quitRequest = true ∧ c' = c.round (onData h) sh r := by
  by_cases hready : r.poll = .ready
  · have hconn : (s.process h r).connections = (s.loop h r).2.filter (·.isAlive) := by
      simp [Server.process, TCPServer.process, TCPServer.keepAlive, TCPServer.acceptNew, hexit, hready, haccept,
        Server.loop, Server.checked]
    rw [hconn] at hc'
    obtain ⟨hmem, halive⟩ := List.mem_filter.1 hc'
    obtain ⟨d, hd, sh, hsh, -, rfl⟩ := mem_handleAll (P := fun sh => sh.quitRequest = true)
      (quit_onData h) r.events s.shared (s.checked r) hmem
    obtain ⟨c, hc, rfl⟩ := List.mem_map.1 hd
    refine ⟨halive, c, hc, sh, hsh hquit, ?_⟩
    unfold Connection.round
    rw [hready]
  · have hconn : (s.process h r).connections = (s.checked r).filter (·.isAlive) := by
      cases hp : r.poll
      · simp [Server.process, TCPServer.process, TCPServer.keepAlive, hexit, hp, Server.checked]
      · simp [Server.process, TCPServer.process, TCPServer.keepAlive, hexit, hp, Server.checked]
      · exact absurd hp hready
    rw [hconn] at hc'
    obtain ⟨hmem, halive⟩ := List.mem_filter.1 hc'
    obtain ⟨c, hc, rfl⟩ := List.mem_map.1 hmem
    refine ⟨halive, c, hc, s.shared, hquit, ?_⟩
    unfold Connection.round
    cases hp : r.poll
    · rfl
    · rfl
    · exact absurd hp hready

/-- With no connection left, a server that quits exits. -/
theorem process_exits (hquit : s.shared.quitRequest = true) {r : Round} (hnone : (s.process h r).connections = []) :
    (s.process h r).exited = true := by
  cases hexit : s.exited
  swap
  · rwa [s.process_exited h r hexit]
  have hshared := process_shared h hquit r
  unfold Server.process at hnone hshared ⊢
  rw [hexit] at hnone hshared ⊢
  simp only [Bool.false_eq_true, if_false] at hnone hshared ⊢
  rw [hnone, show ((s.toTCPServer.process (onData h) ⟨HttpParser.init, []⟩ r).shared.quitRequest || r.signal) = true from
    (congrArg Shared.quitRequest hshared).trans hquit]
  rfl

end Process

/-! ## Runs -/

theorem shared_run {s : Server D} (hquit : s.shared.quitRequest = true) (rounds : List Round) :
    (run (Server.process h) s rounds).shared = s.shared :=
  inv_run_all (fun s' : Server D => s'.shared = s.shared)
    (fun _ r hs' => (process_shared h (hs' ▸ hquit) r).trans hs') rfl rounds

theorem exited_run {s : Server D} (hexit : s.exited = true) (rounds : List Round) :
    (run (Server.process h) s rounds).exited = true :=
  inv_run_all (fun s' : Server D => s'.exited = true) (fun s' r hs' => by rwa [s'.process_exited h r hs']) hexit rounds

/-- **Quitting is final**: whatever arrives, from clients that were connected before or after, no request is executed,
the databases stay as they are, and connections are only written 503. -/
theorem quits_gracefully (s : Server D) (hquit : s.shared.quitRequest = true) (rounds : List Round) :
    (run (Server.process h) s rounds).shared = s.shared ∧
      ∀ c' ∈ (run (Server.process h) s rounds).all,
        ∃ c, (c ∈ s.all ∨ ∃ now id, s.accepted ≤ id ∧ c = Connection.fresh now id) ∧ Refused c c' := by
  refine ⟨shared_run h hquit rounds, ?_⟩
  induction rounds generalizing s with
  | nil => exact fun c' hc' => ⟨c', .inl hc', .refl c'⟩
  | cons r rounds ih =>
    intro c'' hc''
    obtain ⟨c', hc' | ⟨now, id, hid, rfl⟩, hrefused⟩ := ih (s.process h r) (process_shared h hquit r ▸ hquit) c'' hc''
    · obtain ⟨c, hc, hrefused'⟩ := process_refused h hquit r hc'
      exact ⟨c, hc, hrefused'.trans hrefused⟩
    · exact ⟨_, .inr ⟨now, id, (accepted_process h s r).trans hid, rfl⟩, hrefused⟩

/-- A client has connected and asked the server to quit. -/
def askedToQuit : Server (List Bytes) :=
  run (Server.process bodies) (Server.start []) [connect, roundOf true false (readOf (str "GET /quit HTTP/1.1\r\n\r\n"))]

/-- A client that connects now can add nothing. -/
theorem quits_gracefully_post :
    (run (Server.process bodies) askedToQuit
        [connect, roundOf true true (readOf (str "POST /deals/add HTTP/1.1\r\ncontent-length: 4\r\n\r\ndeal"))]).shared =
        askedToQuit.shared ∧
      ∀ c' ∈ (run (Server.process bodies) askedToQuit
          [connect, roundOf true true (readOf (str "POST /deals/add HTTP/1.1\r\ncontent-length: 4\r\n\r\ndeal"))]).all,
        ∃ c, (c ∈ askedToQuit.all ∨ ∃ now id, askedToQuit.accepted ≤ id ∧ c = Connection.fresh now id) ∧ Refused c c' :=
  quits_gracefully bodies askedToQuit (by decide) _

/-! ## The end -/

/-- The connections are closed, and stay only for what they have to send. -/
structure Draining (ids : ℕ → Prop) (s : Server D) : Prop where
  quit : s.shared.quitRequest = true
  closed : s.exited = false → ∀ c ∈ s.connections, c.connectionAlive = false ∧ c.isAlive = true ∧ ids c.id

section Draining

variable {ids : ℕ → Prop} {s : Server D} {r : Round}

/-- The round that closes what is overdue. -/
theorem draining_of_overdue (hquit : s.shared.quitRequest = true) (hexit : s.exited = false) (haccept : r.accept = none)
    (hold : ∀ c ∈ s.connections, Overdue c r) :
    Draining (fun id => ∃ c ∈ s.connections, c.id = id) (s.process h r) := by
  refine ⟨process_shared h hquit r ▸ hquit, fun _ c' hc' => ?_⟩
  obtain ⟨halive, c, hc, sh, hsh, rfl⟩ := mem_process_connections h hquit hexit haccept hc'
  exact ⟨round_overdue h hsh (hold c hc), halive, c, hc, (round_refused h hsh c r).id_eq.symm⟩

theorem Draining.process (hs : Draining ids s) (haccept : r.accept = none) : Draining ids (s.process h r) := by
  refine ⟨process_shared h hs.quit r ▸ hs.quit, fun hexit' c' hc' => ?_⟩
  have hexit : s.exited = false := by
    by_contra hexit
    rw [s.process_exited h r (by simpa using hexit)] at hexit'
    exact hexit hexit'
  obtain ⟨halive, c, hc, sh, hsh, rfl⟩ := mem_process_connections h hs.quit hexit haccept hc'
  obtain ⟨hclosed, -, hid⟩ := hs.closed hexit c hc
  have hrefused := round_refused h hsh c r
  exact ⟨hrefused.closed hclosed, halive, hrefused.id_eq ▸ hid⟩

theorem Draining.run (hs : Draining ids s) {rounds : List Round} (haccept : ∀ r ∈ rounds, r.accept = none) :
    Draining ids (StateMachine.run (Server.process h) s rounds) :=
  inv_run (Draining ids) (fun _ _ hs' ha => hs'.process h ha) hs (always_of_forall haccept s)

/-- A round that releases a connection deletes it. -/
theorem Draining.release (hs : Draining ids s) (hexit : s.exited = false) (haccept : r.accept = none) {k : ℕ}
    (hoff : ∀ c ∈ s.connections, c.id = k → EndsOutput c r) : Draining (· ≠ k) (s.process h r) := by
  have hkept := hs.process h haccept
  refine ⟨hkept.quit, fun hexit' c' hc' => ⟨(hkept.closed hexit' c' hc').1, (hkept.closed hexit' c' hc').2.1, ?_⟩⟩
  rintro rfl
  obtain ⟨halive, c, hc, sh, hsh, rfl⟩ := mem_process_connections h hs.quit hexit haccept hc'
  obtain ⟨hclosed, halive', -⟩ := hs.closed hexit c hc
  have hid := (round_refused h hsh c r).id_eq
  rw [round_released h hsh hclosed halive' (hoff c hc hid.symm)] at halive
  cases halive

end Draining

/-- **A server that quits comes to its end**: when nobody connects any more, it has exited once all connections were
found overdue, and each was released in a later round. -/
theorem drains (s : Server D) (hquit : s.shared.quitRequest = true) (r : Round) (later : List Round)
    (haccept : ∀ r' ∈ r :: later, r'.accept = none) (hold : ∀ c ∈ s.connections, Overdue c r)
    (hoff : ∀ c ∈ s.connections, ∃ pre r' post, later = pre ++ r' :: post ∧
      ∀ c' ∈ (run (Server.process h) s (r :: pre)).connections, c'.id = c.id → EndsOutput c' r') :
    (run (Server.process h) s (r :: later)).exited = true := by
  by_contra hlives
  -- until the end, the server has not exited
  have hliving (pre post : List Round) (hrounds : r :: later = pre ++ post) :
      (run (Server.process h) s pre).exited = false := by
    by_contra hexit
    rw [hrounds, run_append] at hlives
    exact hlives (exited_run h (by simpa using hexit) post)
  have hfirst := draining_of_overdue h hquit (hliving [] (r :: later) rfl) (haccept r List.mem_cons_self) hold
  have haccept' : ∀ r' ∈ later, r'.accept = none := fun r' hr' => haccept r' (List.mem_cons_of_mem r hr')
  have hnone : (run (Server.process h) s (r :: later)).connections = [] := by
    refine List.eq_nil_iff_forall_not_mem.2 fun c' hc' => ?_
    obtain ⟨-, -, c, hc, hid⟩ := (hfirst.run h haccept').closed (by simpa using hlives) c' hc'
    obtain ⟨pre, r', post, rfl, hends⟩ := hoff c hc
    have haccept₁ : ∀ r'' ∈ pre, r''.accept = none := fun r'' hr'' => haccept' r'' (List.mem_append_left _ hr'')
    have haccept₂ : ∀ r'' ∈ post, r''.accept = none := fun r'' hr'' => haccept' r'' (by simp [hr''])
    have hpre := hfirst.run h haccept₁
    have hgone := hpre.release h (hliving (r :: pre) (r' :: post) rfl) (haccept' r' (by simp)) hends
    have hpost := hgone.run h haccept₂
    have hfinal : run (Server.process h) s (r :: (pre ++ r' :: post)) =
        run (Server.process h) ((run (Server.process h) (s.process h r) pre).process h r') post := by
      rw [run_cons, run_append, run_cons]
    rw [← hfinal] at hpost
    exact (hpost.closed (by simpa using hlives) c' hc').2.2 hid.symm
  -- the last round finds nothing
  obtain hnil | ⟨init, last, hlast⟩ := List.eq_nil_or_concat' (r :: later)
  · cases hnil
  rw [hlast, run_append] at hnone hlives
  exact hlives (process_exits h (shared_run h hquit init ▸ hquit) hnone)

/-- A round eleven seconds later, without events. -/
def elevenLater : Round := ⟨12, .timeout, fun _ => ⟨false, false, false, .countZero, true, 12⟩, none, false⟩

/-- The server sends its answer to `/quit`, and exits. -/
theorem drains_writable :
    (run (Server.process bodies) askedToQuit [elevenLater, roundOf false true .countZero]).exited = true := by
  refine drains bodies askedToQuit (by decide) elevenLater [roundOf false true .countZero] ?_ ?_ ?_
  · intro r' hr'
    simp only [List.mem_cons, List.not_mem_nil, or_false] at hr'
    rcases hr' with rfl | rfl <;> rfl
  · unfold Overdue
    decide
  · have hends : ∀ c' ∈ (run (Server.process bodies) askedToQuit [elevenLater]).connections,
        EndsOutput c' (roundOf false true .countZero) := by
      unfold EndsOutput
      decide
    exact fun c hc => ⟨[], _, [], rfl, fun c' hc' _ => hends c' hc'⟩

end DealsServer
