import DealsServer.Spec.Server

/-!
# One round, seen from one connection

`Server.round_cases` says once what a round of the server does: every connection of the poll set takes
its own `Connection.round`, at most one connection is accepted, and those no longer alive are deleted.
`quitRequest` is never taken back (`quit_process`).
-/

namespace DealsServer

variable {S C D : Type*}

/-- What a round does to one connection, when the shared state is `shared` at its turn. -/
def Connection.round (onData : S → Connection C → S × Connection C) (c : Connection C) (shared : S)
    (r : Round) : Connection C :=
  let c := { c with toTCPConnection := c.checkTimes r.currentTime }
  match r.poll with
  | .ready => (handleEvents onData shared c (r.events c.id)).2
  | _ => c

/-- The connection after its read events. -/
def Connection.readEvents (onData : S → Connection C → S × Connection C) (c : Connection C) (shared : S)
    (ev : Events) : Connection C :=
  if ev.pollin then (onData shared { c with toTCPConnection := c.networkRead ev.read }).2 else c

theorem handleEvents_snd (onData : S → Connection C → S × Connection C) (sh : S) (c : Connection C)
    (ev : Events) :
    (handleEvents onData sh c ev).2 =
      if ev.pollhup then { c with toTCPConnection := c.reset }
      else if ev.pollout && c.hasSomethingToSend then
        { c.readEvents onData sh ev with
          toTCPConnection := (c.readEvents onData sh ev).networkWrite ev.sendTime ev.sent }
      else c.readEvents onData sh ev := by
  simp only [handleEvents, Connection.readEvents]
  split_ifs <;> rfl

section HandleAll

variable {onData : S → Connection C → S × Connection C} {P : S → Prop}

theorem handleEvents_keeps (hP : ∀ sh c, P sh → P (onData sh c).1) (sh : S) (c : Connection C) (ev : Events)
    (h : P sh) : P (handleEvents onData sh c ev).1 := by
  have hread := hP sh { c with toTCPConnection := c.networkRead ev.read } h
  simp only [handleEvents]
  split_ifs <;> first | exact h | exact hread

theorem handleAll_keeps (hP : ∀ sh c, P sh → P (onData sh c).1) (events : ℕ → Events) (sh : S)
    (cs : List (Connection C)) (h : P sh) : P (handleAll onData events sh cs).1 := by
  induction cs generalizing sh with
  | nil => exact h
  | cons c cs ih => exact ih _ (handleEvents_keeps hP sh c (events c.id) h)

/-- Every connection after the loop comes from its turn. -/
theorem mem_handleAll (hP : ∀ sh c, P sh → P (onData sh c).1) (events : ℕ → Events) (sh : S)
    (cs : List (Connection C)) {c' : Connection C} (h : c' ∈ (handleAll onData events sh cs).2) :
    ∃ c ∈ cs, ∃ sh', (P sh → P sh') ∧ (P sh' → P (handleAll onData events sh cs).1) ∧
      c' = (handleEvents onData sh' c (events c.id)).2 := by
  induction cs generalizing sh with
  | nil => cases h
  | cons c cs ih =>
    have hkeep := handleEvents_keeps hP sh c (events c.id)
    rcases List.mem_cons.1 h with rfl | h
    · exact ⟨c, List.mem_cons_self, sh, id, fun hp => handleAll_keeps hP events _ cs (hkeep hp), rfl⟩
    · obtain ⟨d, hd, sh', h1, h2, h3⟩ := ih _ h
      exact ⟨d, List.mem_cons_of_mem c hd, sh', fun hp => h1 (hkeep hp), h2, h3⟩

/-- Every connection of the poll set gets its turn. -/
theorem handleAll_mem (hP : ∀ sh c, P sh → P (onData sh c).1) (events : ℕ → Events) (sh : S)
    (cs : List (Connection C)) {c : Connection C} (h : c ∈ cs) :
    ∃ sh', (P sh → P sh') ∧ (P sh' → P (handleAll onData events sh cs).1) ∧
      (handleEvents onData sh' c (events c.id)).2 ∈ (handleAll onData events sh cs).2 := by
  induction cs generalizing sh with
  | nil => cases h
  | cons d cs ih =>
    have hkeep := handleEvents_keeps hP sh d (events d.id)
    rcases List.mem_cons.1 h with rfl | h
    · exact ⟨sh, id, fun hp => handleAll_keeps hP events _ cs (hkeep hp), List.mem_cons_self⟩
    · obtain ⟨sh', h1, h2, h3⟩ := ih _ h
      exact ⟨sh', fun hp => h1 (hkeep hp), h2, List.mem_cons_of_mem _ h3⟩

end HandleAll

/-! ## The server -/

variable (h : Handlers D)

/-- `quit_request` is never taken back. -/
theorem quit_onData (s : Shared D) (c : Connection Context) (hq : s.quitRequest = true) :
    (onData h s c).1.quitRequest = true := by
  simp [onData, hq]

@[simp] theorem TCPServer.acceptNew_shared (init : C) (s : TCPServer S C) (accept : Option UInt32) :
    (s.acceptNew init accept).shared = s.shared := by
  cases accept <;> rfl

@[simp] theorem TCPServer.keepAlive_shared (s : TCPServer S C) : s.keepAlive.shared = s.shared := rfl

/-- The connections as `poll` sees them. -/
def Server.checked (s : Server D) (r : Round) : List (Connection Context) :=
  s.connections.map fun c => { c with toTCPConnection := c.checkTimes r.currentTime }

/-- The loop over the connections in a round. -/
def Server.loop (s : Server D) (r : Round) : Shared D × List (Connection Context) :=
  handleAll (onData h) r.events s.shared (s.checked r)

theorem Server.quit_ready (s : Server D) (r : Round) (hs : s.exited = false) (hr : r.poll = .ready) :
    (s.process h r).shared.quitRequest = ((s.loop h r).1.quitRequest || r.signal) := by
  simp [Server.process, TCPServer.process, hs, hr, Server.loop, Server.checked]

theorem quit_process (s : Server D) (r : Round) (hq : s.shared.quitRequest = true) :
    (s.process h r).shared.quitRequest = true := by
  cases hs : s.exited
  · cases hr : r.poll
    · simp [Server.process, TCPServer.process, hs, hr, hq]
    · simp [Server.process, TCPServer.process, hs, hr, hq]
    · rw [s.quit_ready h r hs hr, Server.loop, handleAll_keeps (P := fun sh => sh.quitRequest = true)
        (quit_onData h) r.events s.shared _ hq]
      rfl
  · simp [Server.process, hs, hq]

/-- A newly accepted connection. -/
def Connection.fresh (now : UInt32) (id : ℕ) : Connection Context :=
  { TCPConnection.accepted now with id := id, context := ⟨HttpParser.init, []⟩ }

/-- The shared state `sh` is one that the round passes through. -/
def During (s : Server D) (r : Round) (sh : Shared D) : Prop :=
  (s.shared.quitRequest = true → sh.quitRequest = true) ∧
    (sh.quitRequest = true → (s.process h r).shared.quitRequest = true)

/-- **What a round does.** Each connection takes its round, one may be accepted, and the dead ones are
deleted. -/
theorem Server.round_cases (s : Server D) (r : Round) (hs : s.exited = false) :
    ∃ cs : List (Connection Context),
      (s.process h r).connections = cs.filter (·.isAlive) ∧
      (s.process h r).deleted = s.deleted ++ cs.filter (fun c => !c.isAlive) ∧
      (∀ c' ∈ cs, (∃ c ∈ s.connections, ∃ sh, During h s r sh ∧ c' = c.round (onData h) sh r) ∨
        ∃ now, c' = Connection.fresh now s.accepted) ∧
      ∀ c ∈ s.connections, ∃ sh, During h s r sh ∧ c.round (onData h) sh r ∈ cs := by
  by_cases hr : r.poll = .ready
  · -- the connection's events are handled after its times are checked
    have hround : ∀ (c : Connection Context) sh, c.round (onData h) sh r =
        (handleEvents (onData h) sh { c with toTCPConnection := c.checkTimes r.currentTime }
          (r.events c.id)).2 := by
      intro c sh
      simp [Connection.round, hr]
    have hend : ∀ sh : Shared D, (sh.quitRequest = true → (s.loop h r).1.quitRequest = true) →
        sh.quitRequest = true → (s.process h r).shared.quitRequest = true := by
      intro sh hsh hq
      rw [s.quit_ready h r hs hr, hsh hq]
      rfl
    -- the connections of the loop, and the accepted one behind them
    refine ⟨(s.loop h r).2 ++ (r.accept.map (Connection.fresh · s.accepted)).toList, ?_, ?_, ?_, ?_⟩
    · cases hacc : r.accept <;> simp [Server.process, TCPServer.process, TCPServer.keepAlive,
        TCPServer.acceptNew, hs, hr, hacc, Server.loop, Server.checked, Connection.fresh]
    · cases hacc : r.accept <;> simp [Server.process, TCPServer.process, TCPServer.keepAlive,
        TCPServer.acceptNew, hs, hr, hacc, Server.loop, Server.checked, Connection.fresh]
    · intro c' hc'
      rcases List.mem_append.1 hc' with hc' | hc'
      · obtain ⟨d, hd, sh, h1, h2, h3⟩ := mem_handleAll (P := fun sh => sh.quitRequest = true)
          (quit_onData h) r.events s.shared _ hc'
        obtain ⟨c, hc, rfl⟩ := List.mem_map.1 hd
        exact .inl ⟨c, hc, sh, ⟨h1, hend sh h2⟩, by rw [h3, hround]⟩
      · right
        cases hacc : r.accept with
        | none => simp [hacc] at hc'
        | some now => exact ⟨now, by simpa [hacc] using hc'⟩
    · intro c hc
      obtain ⟨sh, h1, h2, h3⟩ := handleAll_mem (P := fun sh => sh.quitRequest = true)
        (quit_onData h) r.events s.shared (s.checked r) (List.mem_map_of_mem hc)
      exact ⟨sh, ⟨h1, hend sh h2⟩, List.mem_append_left _ (by rw [hround]; exact h3)⟩
  · -- no events: only the times are checked
    have hround : ∀ (c : Connection Context) (sh : Shared D),
        c.round (onData h) sh r = { c with toTCPConnection := c.checkTimes r.currentTime } := by
      intro c sh
      cases hp : r.poll
      · simp [Connection.round, hp]
      · simp [Connection.round, hp]
      · exact absurd hp hr
    have hself : During h s r s.shared := ⟨id, quit_process h s r⟩
    refine ⟨s.checked r, ?_, ?_, ?_, ?_⟩
    · cases hp : r.poll
      · simp [Server.process, TCPServer.process, hs, hp, TCPServer.keepAlive, Server.checked]
      · simp [Server.process, TCPServer.process, hs, hp, TCPServer.keepAlive, Server.checked]
      · exact absurd hp hr
    · cases hp : r.poll
      · simp [Server.process, TCPServer.process, hs, hp, TCPServer.keepAlive, Server.checked]
      · simp [Server.process, TCPServer.process, hs, hp, TCPServer.keepAlive, Server.checked]
      · exact absurd hp hr
    · intro c' hc'
      obtain ⟨c, hc, rfl⟩ := List.mem_map.1 hc'
      exact .inl ⟨c, hc, s.shared, hself, (hround c _).symm⟩
    · intro c hc
      exact ⟨s.shared, hself, by rw [hround]; exact List.mem_map_of_mem hc⟩

theorem Server.process_exited (s : Server D) (r : Round) (hs : s.exited = true) : s.process h r = s := by
  simp [Server.process, hs]

@[simp] theorem Connection.round_id (c : Connection Context) (sh : Shared D) (r : Round) :
    (c.round (onData h) sh r).id = c.id := by
  have hdata : ∀ (sh : Shared D) (c : Connection Context), (onData h sh c).2.id = c.id := by
    intro sh c
    simp only [onData, Connection.respond]
    split_ifs <;> rfl
  unfold Connection.round handleEvents
  cases r.poll
  · rfl
  · rfl
  · simp only
    split_ifs <;> simp [hdata]

end DealsServer
