import DealsServer.Proof.Parser
import DealsServer.Proof.Rounds

/-!
# One connection, one execution

* `oneExecution_iff`: in a run of the server, connection `k` executes at most one request and is written
  at most one response exactly if no round reads from it while its answer is still to be sent.
* `post_executed_twice`: a client that sends two bytes too many has its deal inserted twice.

A connection that has answered stays in the poll set until its output is sent. Its parser stays settled,
so any further `POLLIN`, even an end of stream, makes `on_data` answer again.
-/

namespace DealsServer

open StateMachine

variable {D : Type*} (h : Handlers D)

/-- At most one request executed, and at most one response written. -/
def OneExecution (c : Connection Context) : Prop :=
  c.context.executed.length ≤ 1 ∧
    (c.written = [] ∨ ∃ response : HttpResponse, c.written = [response.toBytes])

/-- Connection `k` is not read from while its answer is still to be sent. -/
def Undisturbed (k : ℕ) (s : Server D) (r : Round) : Prop :=
  s.exited = false → r.poll = .ready → (r.events k).pollin = true → (r.events k).pollhup = false →
    ∀ c ∈ s.connections, c.id = k → c.dataOut = []

/-! ## The states of a connection -/

/-- Nothing has been answered yet. -/
structure Fresh (c : Connection Context) : Prop where
  written : c.written = []
  dataOut : c.dataOut = []
  executed : c.context.executed = []
  unsettled : ¬ c.context.http.Settled

/-- One response was written. -/
structure Answered (c : Connection Context) : Prop where
  written : ∃ response : HttpResponse, c.written = [response.toBytes]
  executed : c.context.executed.length ≤ 1
  closed : c.connectionAlive = false

/-- The next `on_data` answers again. -/
def Ready (quit : Bool) (c : Connection Context) : Prop := quit = true ∨ c.context.http.Settled

/-- A connection of the poll set: fresh, or answered and about to answer again if it is read. -/
def Serving (quit : Bool) (c : Connection Context) : Prop := Fresh c ∨ Answered c ∧ Ready quit c

theorem Fresh.one {c : Connection Context} (hc : Fresh c) : OneExecution c :=
  ⟨by simp [hc.executed], .inl hc.written⟩

theorem Answered.one {c : Connection Context} (hc : Answered c) : OneExecution c :=
  ⟨hc.executed, .inr hc.written⟩

theorem Ready.mono {q q' : Bool} (hq : q = true → q' = true) {c : Connection Context} (hc : Ready q c) :
    Ready q' c := hc.imp_left hq

theorem fresh_fresh (now : UInt32) (id : ℕ) : Fresh (Connection.fresh now id) :=
  ⟨rfl, rfl, rfl, by simp [Connection.fresh, HttpParser.Settled, HttpParser.init]⟩

/-! ## `on_data` -/

/-- The parser after `on_data` has written the input to it. -/
def fed (s : Shared D) (c : Connection Context) : HttpParser :=
  if s.quitRequest then c.context.http else c.context.http.write c.dataIn

/-- **What `on_data` does**: it answers, with at most one request executed, or it waits for more. -/
theorem onData_cases (s : Shared D) (c : Connection Context) :
    (∃ response rs, rs.length ≤ 1 ∧ Ready s.quitRequest (onData h s c).2 ∧
      (onData h s c).2 =
        ({ c with context := ⟨fed s c, c.context.executed ++ rs⟩ } : Connection Context).respond response) ∨
    (s.quitRequest = false ∧ ¬ (fed s c).Settled ∧
      (onData h s c).2 = { c with context := ⟨fed s c, c.context.executed⟩ }) := by
  by_cases hq : s.quitRequest = true
  · refine .inl ⟨.withBody 503 "Service unavailable" "Service unavailable\n", [], by simp, .inl hq, ?_⟩
    simp [onData, fed, hq]
  · have hq : s.quitRequest = false := by simpa using hq
    by_cases hbad : (fed s c).badRequest = true
    · have hout : (onData h s c).2 = ({ c with context := ⟨fed s c, c.context.executed ++ []⟩ } :
          Connection Context).respond (errorResponse (badFormat (fed s c))) := by
        simp only [fed, hq, Bool.false_eq_true, if_false] at hbad
        simp [onData, fed, hq, hbad]
      exact .inl ⟨_, _, by simp, .inr (by rw [hout]; exact .inl hbad), hout⟩
    · by_cases hcomplete : (fed s c).parsingComplete = true
      · have hout : ∃ response r, (onData h s c).2 = ({ c with context := ⟨fed s c,
            c.context.executed ++ [r]⟩ } : Connection Context).respond response := by
          simp only [fed, hq, Bool.false_eq_true, if_false] at hbad hcomplete
          exact ⟨_, _, by simp [onData, fed, hq, hbad, hcomplete]; rfl⟩
        obtain ⟨response, r, hout⟩ := hout
        exact .inl ⟨response, [r], by simp, .inr (by rw [hout]; exact .inr hcomplete), hout⟩
      · refine .inr ⟨hq, fun hset => hset.elim hbad hcomplete, ?_⟩
        simp only [fed, hq, Bool.false_eq_true, if_false] at hbad hcomplete
        simp [onData, fed, hq, hbad, hcomplete]

theorem onData_fresh {s : Shared D} {c : Connection Context} (hc : Fresh c) :
    Serving s.quitRequest (onData h s c).2 := by
  obtain ⟨response, rs, hrs, hready, hout⟩ | ⟨-, hun, hout⟩ := onData_cases h s c
  · refine .inr ⟨?_, hready⟩
    rw [hout]
    exact ⟨⟨response, by simp [Connection.respond, TCPConnection.closeWith, TCPConnection.write,
      TCPConnection.close, hc.written]⟩, by simpa [Connection.respond, hc.executed] using hrs, rfl⟩
  · refine .inl ?_
    rw [hout]
    exact ⟨hc.written, hc.dataOut, hc.executed, hun⟩

/-- A connection that is ready answers. -/
theorem onData_ready {s : Shared D} {c : Connection Context} (hc : Ready s.quitRequest c) :
    (onData h s c).2.written.length = c.written.length + 1 := by
  obtain ⟨response, rs, -, -, hout⟩ | ⟨hq, hun, -⟩ := onData_cases h s c
  · rw [hout]
    simp [Connection.respond, TCPConnection.closeWith, TCPConnection.write, TCPConnection.close]
  · rcases hc with hquit | hset
    · simp [hq] at hquit
    · refine absurd ?_ hun
      simp only [fed, hq, Bool.false_eq_true, if_false]
      exact HttpParser.settled_write hset _

theorem onData_written_le (s : Shared D) (c : Connection Context) :
    c.written.length ≤ (onData h s c).2.written.length := by
  obtain ⟨response, rs, -, -, hout⟩ | ⟨-, -, hout⟩ := onData_cases h s c
  · rw [hout]
    simp [Connection.respond, TCPConnection.closeWith, TCPConnection.write, TCPConnection.close]
  · rw [hout]

/-! ## One round of one connection -/

@[simp] theorem checkTimes_dataOut (c : TCPConnection) (now : UInt32) :
    (c.checkTimes now).dataOut = c.dataOut := by
  unfold TCPConnection.checkTimes
  split_ifs <;> rfl

@[simp] theorem checkTimes_written (c : TCPConnection) (now : UInt32) :
    (c.checkTimes now).written = c.written := by
  unfold TCPConnection.checkTimes
  split_ifs <;> rfl

theorem checkTimes_alive {c : TCPConnection} (hc : c.connectionAlive = false) (now : UInt32) :
    (c.checkTimes now).connectionAlive = false := by
  unfold TCPConnection.checkTimes
  split_ifs
  · rfl
  · rfl
  · exact hc

@[simp] theorem networkRead_dataOut (c : TCPConnection) (read : ReadOutcome) :
    (c.networkRead read).dataOut = c.dataOut := by
  cases read <;> rfl

@[simp] theorem networkRead_written (c : TCPConnection) (read : ReadOutcome) :
    (c.networkRead read).written = c.written := by
  cases read <;> rfl

@[simp] theorem networkWrite_written (c : TCPConnection) (now : UInt32) (sent : Bool) :
    (c.networkWrite now sent).written = c.written := by
  unfold TCPConnection.networkWrite
  split_ifs <;> rfl

theorem networkWrite_alive {c : TCPConnection} (hc : c.connectionAlive = false) (now : UInt32) (sent : Bool) :
    (c.networkWrite now sent).connectionAlive = false := by
  unfold TCPConnection.networkWrite
  split_ifs
  · exact hc
  · exact hc
  · rfl

variable {h}

theorem round_fresh {c : Connection Context} (hc : Fresh c) (sh : Shared D) (r : Round) :
    Serving sh.quitRequest (c.round (onData h) sh r) := by
  have htimes : Fresh { c with toTCPConnection := c.checkTimes r.currentTime } :=
    ⟨by simpa using hc.written, by simpa using hc.dataOut, hc.executed, hc.unsettled⟩
  unfold Connection.round
  cases r.poll
  · exact .inl htimes
  · exact .inl htimes
  · -- nothing to send, so no `POLLOUT` is asked for
    have hnothing : TCPConnection.hasSomethingToSend (c.checkTimes r.currentTime) = false := by
      simp [TCPConnection.hasSomethingToSend, hc.dataOut]
    simp only [handleEvents_snd, hnothing, Bool.and_false, Bool.false_eq_true, if_false]
    split_ifs
    · exact .inl ⟨htimes.written, rfl, htimes.executed, htimes.unsettled⟩
    · unfold Connection.readEvents
      split_ifs
      · exact onData_fresh h
          ⟨by simpa using hc.written, by simpa using hc.dataOut, hc.executed, hc.unsettled⟩
      · exact .inl htimes

/-- An answered connection that is not read stays answered. -/
theorem round_answered {c : Connection Context} (hc : Answered c) {sh : Shared D} {r : Round}
    (hready : Ready sh.quitRequest c)
    (hin : r.poll = .ready → (r.events c.id).pollin = true → (r.events c.id).pollhup = true) :
    Answered (c.round (onData h) sh r) ∧ Ready sh.quitRequest (c.round (onData h) sh r) := by
  have htimes : Answered { c with toTCPConnection := c.checkTimes r.currentTime } :=
    ⟨by simpa using hc.written, hc.executed, checkTimes_alive hc.closed _⟩
  unfold Connection.round
  cases hr : r.poll
  · exact ⟨htimes, hready⟩
  · exact ⟨htimes, hready⟩
  · by_cases hhup : (r.events c.id).pollhup = true
    · simp only [handleEvents_snd, hhup, if_true]
      exact ⟨⟨htimes.written, htimes.executed, rfl⟩, hready⟩
    · have hnoin : ¬ (r.events c.id).pollin = true := fun hp => hhup (hin hr hp)
      simp only [handleEvents_snd, Connection.readEvents, if_neg hhup, if_neg hnoin]
      split_ifs
      · exact ⟨⟨by simpa using hc.written, hc.executed, networkWrite_alive htimes.closed _ _⟩, hready⟩
      · exact ⟨htimes, hready⟩

/-- Reading from an answered connection answers it again. -/
theorem round_disturbed {c : Connection Context} (hc : Answered c) {sh : Shared D} {r : Round}
    (hready : Ready sh.quitRequest c) (hr : r.poll = .ready) (hin : (r.events c.id).pollin = true)
    (hhup : (r.events c.id).pollhup = false) :
    2 ≤ (c.round (onData h) sh r).written.length := by
  obtain ⟨response, hw⟩ := hc.written
  have hsecond := onData_ready h (s := sh) (c := { c with
    toTCPConnection := (c.checkTimes r.currentTime).networkRead (r.events c.id).read }) hready
  simp only [networkRead_written, checkTimes_written, hw, List.length_singleton] at hsecond
  simp only [Connection.round, hr, handleEvents_snd, Connection.readEvents, hin, hhup,
    Bool.false_eq_true, if_false, if_true]
  split_ifs
  · simp only [networkWrite_written]
    exact hsecond.ge
  · exact hsecond.ge

theorem round_written_le (c : Connection Context) (sh : Shared D) (r : Round) :
    c.written.length ≤ (c.round (onData h) sh r).written.length := by
  have hread : c.written.length ≤ (({ c with toTCPConnection := c.checkTimes r.currentTime } :
      Connection Context).readEvents (onData h) sh (r.events c.id)).written.length := by
    unfold Connection.readEvents
    split_ifs
    · simpa using onData_written_le h sh { c with
        toTCPConnection := (c.checkTimes r.currentTime).networkRead (r.events c.id).read }
    · simp
  unfold Connection.round
  cases r.poll
  · simp
  · simp
  · simp only [handleEvents_snd]
    split_ifs
    · simp [TCPConnection.reset, TCPConnection.close]
    · simpa using hread
    · exact hread

/-! ## Runs of the server -/

/-- Connection `k` has answered at most once, as long as the server lives. -/
structure OnceServed (k : ℕ) (s : Server D) : Prop where
  serving : ∀ c ∈ s.connections, c.id = k → Serving s.shared.quitRequest c ∧ c.isAlive = true
  deleted : ∀ c ∈ s.deleted, c.id = k → OneExecution c

/-- Connection `k` has answered twice. -/
def TwiceAnswered (k : ℕ) (s : Server D) : Prop := ∃ c ∈ s.all, c.id = k ∧ 2 ≤ c.written.length

theorem Answered.dataOut_ne_nil {c : Connection Context} (hc : Answered c) (halive : c.isAlive = true) :
    c.dataOut ≠ [] := by
  simpa [TCPConnection.isAlive, TCPConnection.hasSomethingToSend, hc.closed] using halive

variable (h)

theorem onceServed_process {k : ℕ} {s : Server D} {r : Round} (hs : OnceServed k s)
    (hok : Undisturbed k s r) : OnceServed k (s.process h r) := by
  cases hexit : s.exited
  swap
  · rwa [s.process_exited h r hexit]
  obtain ⟨cs, hconn, hdel, hfrom, -⟩ := s.round_cases h r hexit
  -- a connection of the round was there before it or is accepted in it
  have hcs : ∀ c' ∈ cs, c'.id = k → Serving (s.process h r).shared.quitRequest c' := by
    intro c' hc' hid
    rcases hfrom c' hc' with ⟨c, hc, sh, hduring, rfl⟩ | ⟨now, rfl⟩
    · rw [Connection.round_id] at hid
      obtain ⟨hserving, halive⟩ := hs.serving c hc hid
      have hround : Serving sh.quitRequest (c.round (onData h) sh r) := by
        rcases hserving with hfresh | ⟨hans, hready⟩
        · exact round_fresh hfresh sh r
        · refine .inr (round_answered hans (hready.mono hduring.1) fun hr hin => ?_)
          -- an answered connection that is still alive has bytes to send
          by_contra hhup
          rw [hid] at hin hhup
          exact hans.dataOut_ne_nil halive (hok hexit hr hin (by simpa using hhup) c hc hid)
      exact hround.imp_right (And.imp_right (Ready.mono hduring.2))
    · exact .inl (fresh_fresh now _)
  refine ⟨fun c' hc' hid => ?_, fun c' hc' hid => ?_⟩
  · rw [hconn] at hc'
    exact ⟨hcs c' (List.mem_filter.1 hc').1 hid, (List.mem_filter.1 hc').2⟩
  · rw [hdel] at hc'
    rcases List.mem_append.1 hc' with hc' | hc'
    · exact hs.deleted c' hc' hid
    · rcases hcs c' (List.mem_filter.1 hc').1 hid with hc | ⟨hc, -⟩
      · exact hc.one
      · exact hc.one

/-- The connections of a round stay among those the server has accepted. -/
theorem round_mem_all {s : Server D} {r : Round} (hexit : s.exited = false) {c : Connection Context}
    (hc : c ∈ s.connections) :
    ∃ sh, During h s r sh ∧ c.round (onData h) sh r ∈ (s.process h r).all := by
  obtain ⟨cs, hconn, hdel, -, hto⟩ := s.round_cases h r hexit
  obtain ⟨sh, hduring, hmem⟩ := hto c hc
  refine ⟨sh, hduring, ?_⟩
  rw [Server.all, hconn, hdel]
  by_cases halive : (c.round (onData h) sh r).isAlive = true
  · exact List.mem_append_left _ (List.mem_filter.2 ⟨hmem, halive⟩)
  · exact List.mem_append_right _ (List.mem_append_right _ (List.mem_filter.2 ⟨hmem, by simpa using halive⟩))

theorem deleted_mem_all {s : Server D} {r : Round} (hexit : s.exited = false) {c : Connection Context}
    (hc : c ∈ s.deleted) : c ∈ (s.process h r).all := by
  obtain ⟨cs, -, hdel, -, -⟩ := s.round_cases h r hexit
  rw [Server.all, hdel]
  exact List.mem_append_right _ (List.mem_append_left _ hc)

theorem twiceAnswered_of_disturbed {k : ℕ} {s : Server D} {r : Round} (hs : OnceServed k s)
    (hno : ¬ Undisturbed k s r) : TwiceAnswered k (s.process h r) := by
  unfold Undisturbed at hno
  push Not at hno
  obtain ⟨hexit, hr, hin, hhup, c, hc, hid, hout⟩ := hno
  obtain ⟨hfresh | ⟨hans, hready⟩, -⟩ := hs.serving c hc hid
  · exact absurd hfresh.dataOut hout
  · obtain ⟨sh, hduring, hmem⟩ := round_mem_all h (r := r) hexit hc
    refine ⟨_, hmem, by rw [Connection.round_id, hid], ?_⟩
    subst hid
    exact round_disturbed hans (hready.mono hduring.1) hr hin hhup

theorem twiceAnswered_process {k : ℕ} {s : Server D} (r : Round) (hs : TwiceAnswered k s) :
    TwiceAnswered k (s.process h r) := by
  cases hexit : s.exited
  swap
  · rwa [s.process_exited h r hexit]
  obtain ⟨c, hc, hid, htwo⟩ := hs
  rcases List.mem_append.1 hc with hc | hc
  · obtain ⟨sh, -, hmem⟩ := round_mem_all h (r := r) hexit hc
    exact ⟨_, hmem, by rw [Connection.round_id, hid], htwo.trans (round_written_le c sh r)⟩
  · exact ⟨c, deleted_mem_all h hexit hc, hid, htwo⟩

/-- **Exactly when a connection executes once.** Over a run of the server from its start, connection `k`
executes at most one request and is written at most one response if and only if no round reads from it
while its answer is still to be sent. -/
theorem oneExecution_iff (db : D) (rounds : List Round) (k : ℕ) :
    (∀ c ∈ (run (Server.process h) (Server.start db) rounds).all, c.id = k → OneExecution c) ↔
      Always (Server.process h) (Undisturbed k) (Server.start db) rounds := by
  have hstart : OnceServed k (Server.start db) := ⟨by simp [Server.start], by simp [Server.start]⟩
  refine good_run_iff (OnceServed k) (TwiceAnswered k)
    (fun s => ∀ c ∈ s.all, c.id = k → OneExecution c) (fun _ => True) (fun _ _ _ => trivial)
    (fun s r hs _ hok => onceServed_process h hs hok)
    (fun s r hs _ hno => twiceAnswered_of_disturbed h hs hno)
    (fun s r hs _ => twiceAnswered_process h r hs) ?_ ?_ hstart trivial
  · intro s hs c hc hid
    rcases List.mem_append.1 hc with hc | hc
    · rcases (hs.serving c hc hid).1 with hfresh | ⟨hans, -⟩
      · exact hfresh.one
      · exact hans.one
    · exact hs.deleted c hc hid
  · rintro s ⟨c, hc, hid, htwo⟩ hone
    rcases (hone c hc hid).2 with hnil | ⟨response, hw⟩
    · simp [hnil] at htwo
    · simp [hw] at htwo

/-! ## A deal inserted twice -/

/-- Handlers that keep the body of every deal added. -/
def bodies : Handlers (List Bytes) where
  getTop _ db := (.ok (.withBody 204 "Empty result" ""), db)
  getUniqueRoutes db := (.ok (.withBody 204 "Empty result" ""), db)
  getStats db := (.ok (.withBody 204 "Empty result" ""), db)
  getDestiantionsTop _ db := (.ok (.withBody 204 "empty result" ""), db)
  addDeal http db := (.ok (.withBody 200 "OK" "Well done\n"), db ++ [http.getBody])
  truncateDb _ := (.ok (), [])
  truncateDst db := (.ok (), db)

/-- A round in which `poll` reports these events for every connection. -/
def roundOf (pollin pollout : Bool) (read : ReadOutcome) : Round :=
  ⟨1, .ready, fun _ => ⟨false, pollin, pollout, read, true, 1⟩, none, false⟩

/-- The client connects. -/
def connect : Round := ⟨1, .ready, fun _ => ⟨false, false, false, .countZero, true, 1⟩, some 1, false⟩

/-- The outcome of a read of these bytes. -/
def readOf : Bytes → ReadOutcome
  | [] => .countZero
  | b :: bs => .data b bs 1

/-- A complete `POST`, with two more bytes that arrive while the answer is being sent. -/
def trailingBytes : List Round :=
  [connect,
    roundOf true false (readOf (str "POST /deals/add HTTP/1.1\r\ncontent-length: 4\r\n\r\ndeal")),
    roundOf true true (readOf (str "\r\n"))]

/-- One `POST` inserts its deal twice. -/
theorem post_executed_twice :
    (run (Server.process bodies) (Server.start []) trailingBytes).shared.db =
        [str "deal", str "deal\r\n"] ∧
      ¬ ∀ c ∈ (run (Server.process bodies) (Server.start []) trailingBytes).all, OneExecution c := by
  have hexecuted : ((run (Server.process bodies) (Server.start []) trailingBytes).all.map
      fun c => c.context.executed) = [[.addDeal, .addDeal]] := by decide
  refine ⟨by decide, fun hall => ?_⟩
  obtain ⟨c, hc, he⟩ := List.mem_map.1 (hexecuted.symm ▸ List.mem_singleton_self [Route.addDeal, .addDeal])
  have := (hall c hc).1
  rw [he] at this
  simp at this

end DealsServer
