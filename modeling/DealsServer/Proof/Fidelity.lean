import DealsServer.Proof.OneExecution

/-!
# What the parser is fed

* `faithful_iff`: while the server is not quitting, the parser of connection `k` has been fed exactly the
  bytes received on it if and only if no read of it failed after one had succeeded.
* `half_post_stored`: half of a `POST` body, followed by the end of the stream, is stored as a deal.

A failing `network_read` leaves `data_in` as the last successful one set it, and `process` calls
`on_data` after it all the same.
-/

namespace DealsServer

open StateMachine

variable {D : Type*} (h : Handlers D)

/-- The parser was fed the received bytes, each once and in order; so what it takes for a complete `POST`
has received its whole body. -/
def Faithful (c : Connection Context) : Prop :=
  concatString c.context.http.msgs = concatString c.received ∧
    (c.context.http.parsingComplete = true → c.context.http.request.method = str "POST" →
      c.context.http.contentLength ≤ (concatString c.received).length - c.context.http.headersEnd)

/-- `network_read` gets no bytes. -/
def ReadOutcome.fails : ReadOutcome → Bool
  | .data _ _ _ => false
  | _ => true

/-- No failing read of connection `k` while `data_in` holds the bytes of an earlier one. -/
def CleanReads (k : ℕ) (s : Server D) (r : Round) : Prop :=
  s.exited = false → r.poll = .ready → (r.events k).pollin = true → (r.events k).pollhup = false →
    (r.events k).read.fails = true → ∀ c ∈ s.connections, c.id = k → c.dataIn = []

/-- The parser has counted what it was fed, which is what was received. -/
structure Fed (c : Connection Context) : Prop where
  counted : c.context.http.Counted
  same : concatString c.context.http.msgs = concatString c.received

/-- The parser was fed more than was received. -/
def Overfed (c : Connection Context) : Prop :=
  (concatString c.received).length < (concatString c.context.http.msgs).length

theorem Fed.faithful {c : Connection Context} (hc : Fed c) : Faithful c := by
  refine ⟨hc.same, fun hcomplete hpost => ?_⟩
  have hbody := hc.counted.body hcomplete hpost
  rwa [hc.counted.bytes, hc.same] at hbody

theorem Overfed.not_faithful {c : Connection Context} (hc : Overfed c) : ¬ Faithful c := by
  rintro ⟨hsame, -⟩
  unfold Overfed at hc
  rw [hsame] at hc
  exact lt_irrefl _ hc

/-! ## One round of one connection -/

/-- While the server is not quitting, `on_data` feeds the input, and only that. -/
theorem onData_feeds {s : Shared D} (hq : s.quitRequest = false) (c : Connection Context) :
    (onData h s c).2.context.http = c.context.http.write c.dataIn ∧
      (onData h s c).2.received = c.received := by
  have hfed : fed s c = c.context.http.write c.dataIn := by simp [fed, hq]
  obtain ⟨response, rs, -, -, hout⟩ | ⟨-, -, hout⟩ := onData_cases h s c
  · rw [hout, hfed]
    exact ⟨rfl, rfl⟩
  · rw [hout, hfed]
    exact ⟨rfl, rfl⟩

@[simp] theorem checkTimes_received (c : TCPConnection) (now : UInt32) :
    (c.checkTimes now).received = c.received := by
  unfold TCPConnection.checkTimes
  split_ifs <;> rfl

@[simp] theorem checkTimes_dataIn (c : TCPConnection) (now : UInt32) :
    (c.checkTimes now).dataIn = c.dataIn := by
  unfold TCPConnection.checkTimes
  split_ifs <;> rfl

@[simp] theorem networkWrite_received (c : TCPConnection) (now : UInt32) (sent : Bool) :
    (c.networkWrite now sent).received = c.received := by
  unfold TCPConnection.networkWrite
  split_ifs <;> rfl

theorem concatString_append (xs ys : List Bytes) :
    concatString (xs ++ ys) = concatString xs ++ concatString ys := by
  simp [concatString]

theorem concatString_singleton (x : Bytes) : concatString [x] = x := by
  simp [concatString]

/-- The round reads from connection `k`. -/
def Reads (k : ℕ) (r : Round) : Prop :=
  r.poll = .ready ∧ (r.events k).pollin = true ∧ (r.events k).pollhup = false

/-- What a reading round does to the parser and to the record of the received bytes. -/
theorem round_reads {sh : Shared D} (hq : sh.quitRequest = false) {c : Connection Context} {r : Round}
    (hr : Reads c.id r) :
    (c.round (onData h) sh r).context.http =
        c.context.http.write (c.networkRead (r.events c.id).read).dataIn ∧
      (c.round (onData h) sh r).received = (c.networkRead (r.events c.id).read).received := by
  obtain ⟨hready, hin, hhup⟩ := hr
  obtain ⟨hhttp, hrec⟩ := onData_feeds h hq { c with
    toTCPConnection := (c.checkTimes r.currentTime).networkRead (r.events c.id).read }
  have hread : ((c.checkTimes r.currentTime).networkRead (r.events c.id).read).dataIn =
      (c.networkRead (r.events c.id).read).dataIn ∧
      ((c.checkTimes r.currentTime).networkRead (r.events c.id).read).received =
        (c.networkRead (r.events c.id).read).received := by
    cases (r.events c.id).read <;> simp [TCPConnection.networkRead, TCPConnection.close]
  simp only [Connection.round, hready, handleEvents_snd, Connection.readEvents, hin, hhup,
    Bool.false_eq_true, if_false, if_true]
  split_ifs
  · exact ⟨by rw [← hread.1]; exact hhttp, by rw [networkWrite_received, ← hread.2]; exact hrec⟩
  · exact ⟨by rw [← hread.1]; exact hhttp, by rw [← hread.2]; exact hrec⟩

/-- A round that does not read changes neither. -/
theorem round_no_read (sh : Shared D) {c : Connection Context} {r : Round} (hr : ¬ Reads c.id r) :
    (c.round (onData h) sh r).context.http = c.context.http ∧
      (c.round (onData h) sh r).received = c.received := by
  unfold Connection.round
  cases hready : r.poll
  · exact ⟨rfl, by simp⟩
  · exact ⟨rfl, by simp⟩
  · simp only [handleEvents_snd]
    cases hhup : (r.events c.id).pollhup
    · have hin : (r.events c.id).pollin = false := by
        by_contra hin
        exact hr ⟨hready, by simpa using hin, hhup⟩
      simp only [Connection.readEvents, hin, Bool.false_eq_true, if_false]
      split_ifs
      · exact ⟨rfl, by simp⟩
      · exact ⟨rfl, by simp⟩
    · exact ⟨rfl, by simp [TCPConnection.reset, TCPConnection.close]⟩

theorem round_fed {sh : Shared D} (hq : sh.quitRequest = false) {c : Connection Context} (hc : Fed c)
    {r : Round} (hok : Reads c.id r → (r.events c.id).read.fails = true → c.dataIn = []) :
    Fed (c.round (onData h) sh r) := by
  by_cases hr : Reads c.id r
  · obtain ⟨hhttp, hrec⟩ := round_reads h hq hr
    refine ⟨by rw [hhttp]; exact HttpParser.counted_write hc.counted _, ?_⟩
    rw [hhttp, hrec, HttpParser.msgs_write, concatString_append, concatString_singleton, hc.same]
    cases hread : (r.events c.id).read with
    | data first rest now => simp [TCPConnection.networkRead, concatString_append, concatString_singleton]
    | _ => simp [TCPConnection.networkRead, TCPConnection.close, hok hr (by rw [hread]; rfl)]
  · obtain ⟨hhttp, hrec⟩ := round_no_read h sh hr
    exact ⟨by rw [hhttp]; exact hc.counted, by rw [hhttp, hrec]; exact hc.same⟩

/-- A failing read feeds the bytes of the read before it once more. -/
theorem round_overfed {sh : Shared D} (hq : sh.quitRequest = false) {c : Connection Context} (hc : Fed c)
    {r : Round} (hr : Reads c.id r) (hfail : (r.events c.id).read.fails = true) (hin : c.dataIn ≠ []) :
    Overfed (c.round (onData h) sh r) := by
  obtain ⟨hhttp, hrec⟩ := round_reads h hq hr
  have hlen : 0 < c.dataIn.length := List.length_pos_iff.2 hin
  unfold Overfed
  rw [hhttp, hrec, HttpParser.msgs_write, concatString_append, concatString_singleton, hc.same,
    List.length_append]
  cases hread : (r.events c.id).read with
  | data first rest now => simp [hread, ReadOutcome.fails] at hfail
  | _ => simpa [TCPConnection.networkRead, TCPConnection.close] using hlen

theorem Overfed.round {sh : Shared D} (hq : sh.quitRequest = false) {c : Connection Context}
    (hc : Overfed c) (r : Round) : Overfed (c.round (onData h) sh r) := by
  unfold Overfed at hc ⊢
  by_cases hr : Reads c.id r
  · obtain ⟨hhttp, hrec⟩ := round_reads h hq hr
    rw [hhttp, hrec, HttpParser.msgs_write, concatString_append, concatString_singleton, List.length_append]
    cases (r.events c.id).read with
    | data first rest now =>
      simp only [TCPConnection.networkRead, concatString_append, concatString_singleton, List.length_append]
      omega
    | _ =>
      simp only [TCPConnection.networkRead, TCPConnection.close]
      omega
  · obtain ⟨hhttp, hrec⟩ := round_no_read h sh hr
    rw [hhttp, hrec]
    exact hc

/-! ## Runs of the server -/

/-- The server is not quitting. -/
def Serves (s : Server D) : Prop := s.shared.quitRequest = false

instance (s : Server D) : Decidable (Serves s) := inferInstanceAs (Decidable (_ = _))

/-- Every connection `k` so far was fed what it received. -/
def AllFed (k : ℕ) (s : Server D) : Prop := ∀ c ∈ s.all, c.id = k → Fed c

/-- Connection `k` was fed more than it received. -/
def SomeOverfed (k : ℕ) (s : Server D) : Prop := ∃ c ∈ s.all, c.id = k ∧ Overfed c

theorem serves_of_process {s : Server D} {r : Round} (hlive : Serves (s.process h r)) : Serves s := by
  unfold Serves at hlive ⊢
  by_contra hq
  rw [quit_process h s r (by simpa using hq)] at hlive
  exact Bool.noConfusion hlive

theorem During.serves {s : Server D} {r : Round} {sh : Shared D} (hd : During h s r sh)
    (hlive : Serves (s.process h r)) : sh.quitRequest = false := by
  by_contra hq
  unfold Serves at hlive
  rw [hd.2 (by simpa using hq)] at hlive
  exact Bool.noConfusion hlive

theorem fed_fresh (now : UInt32) (id : ℕ) : Fed (Connection.fresh now id) :=
  ⟨HttpParser.counted_init, rfl⟩

theorem allFed_process {k : ℕ} {s : Server D} {r : Round} (hs : AllFed k s)
    (hlive : Serves (s.process h r)) (hok : CleanReads k s r) : AllFed k (s.process h r) := by
  cases hexit : s.exited
  swap
  · rwa [s.process_exited h r hexit]
  obtain ⟨cs, hconn, hdel, hfrom, -⟩ := s.round_cases h r hexit
  have hcs : ∀ c' ∈ cs, c'.id = k → Fed c' := by
    intro c' hc' hid
    rcases hfrom c' hc' with ⟨c, hc, sh, hduring, rfl⟩ | ⟨now, rfl⟩
    · rw [Connection.round_id] at hid
      refine round_fed h (hduring.serves h hlive) (hs c (List.mem_append_left _ hc) hid) ?_
      rintro ⟨hready, hin, hhup⟩ hfail
      rw [hid] at hin hhup hfail
      exact hok hexit hready hin hhup hfail c hc hid
    · exact fed_fresh now _
  intro c' hc' hid
  rw [Server.all, hconn, hdel, List.mem_append, List.mem_append] at hc'
  rcases hc' with hc' | hc' | hc'
  · exact hcs c' (List.mem_filter.1 hc').1 hid
  · exact hs c' (List.mem_append_right _ hc') hid
  · exact hcs c' (List.mem_filter.1 hc').1 hid

theorem someOverfed_of_miss {k : ℕ} {s : Server D} {r : Round} (hs : AllFed k s)
    (hlive : Serves (s.process h r)) (hno : ¬ CleanReads k s r) : SomeOverfed k (s.process h r) := by
  unfold CleanReads at hno
  push Not at hno
  obtain ⟨hexit, hready, hin, hhup, hfail, c, hc, rfl, hne⟩ := hno
  obtain ⟨sh, hduring, hmem⟩ := round_mem_all h (r := r) hexit hc
  exact ⟨_, hmem, by rw [Connection.round_id], round_overfed h (hduring.serves h hlive)
    (hs c (List.mem_append_left _ hc) rfl) ⟨hready, hin, hhup⟩ hfail hne⟩

theorem someOverfed_process {k : ℕ} {s : Server D} {r : Round} (hs : SomeOverfed k s)
    (hlive : Serves (s.process h r)) : SomeOverfed k (s.process h r) := by
  cases hexit : s.exited
  swap
  · rwa [s.process_exited h r hexit]
  obtain ⟨c, hc, hid, hover⟩ := hs
  rcases List.mem_append.1 hc with hc | hc
  · obtain ⟨sh, hduring, hmem⟩ := round_mem_all h (r := r) hexit hc
    exact ⟨_, hmem, by rw [Connection.round_id, hid], hover.round h (hduring.serves h hlive) r⟩
  · exact ⟨c, deleted_mem_all h hexit hc, hid, hover⟩

/-- **Exactly when the parser is fed what was received.** Over a run of a server that is not quitting at
its end, connection `k` is fed exactly its received bytes if and only if no read of it fails while
`data_in` holds earlier bytes. -/
theorem faithful_iff (db : D) (rounds : List Round) (k : ℕ)
    (hend : Serves (run (Server.process h) (Server.start db) rounds)) :
    (∀ c ∈ (run (Server.process h) (Server.start db) rounds).all, c.id = k → Faithful c) ↔
      Always (Server.process h) (CleanReads k) (Server.start db) rounds := by
  have hstart : AllFed k (Server.start db) := by simp [AllFed, Server.start, Server.all]
  refine good_run_iff (AllFed k) (SomeOverfed k) (fun s => ∀ c ∈ s.all, c.id = k → Faithful c)
    Serves
    (fun s r => serves_of_process h) (fun s r => allFed_process h) (fun s r => someOverfed_of_miss h)
    (fun s r => someOverfed_process h) ?_ ?_ hstart hend
  · intro s hs c hc hid
    exact (hs c hc hid).faithful
  · rintro s ⟨c, hc, hid, hover⟩ hall
    exact hover.not_faithful (hall c hc hid)

/-- Half of a body, then the end of the stream. -/
def halfPost : List Round :=
  [connect,
    roundOf true false (readOf (str "POST /deals/add HTTP/1.1\r\ncontent-length: 8\r\n\r\n")),
    roundOf true false (readOf (str "half")),
    roundOf true false .countZero]

/-- The truncated body is completed by its own copy, and stored. -/
theorem half_post_stored :
    (run (Server.process bodies) (Server.start []) halfPost).shared.db = [str "halfhalf"] ∧
      Serves (run (Server.process bodies) (Server.start []) halfPost) ∧
      ¬ ∀ c ∈ (run (Server.process bodies) (Server.start []) halfPost).all, Faithful c := by
  have hfed : ((run (Server.process bodies) (Server.start []) halfPost).all.map fun c =>
      decide (concatString c.context.http.msgs = concatString c.received)) = [false] := by decide
  refine ⟨by decide, by decide, fun hall => ?_⟩
  obtain ⟨c, hc, he⟩ := List.mem_map.1 (hfed.symm ▸ List.mem_singleton_self false)
  exact absurd (hall c hc).1 (by simpa using he)

/-- A body that arrives in two pieces is fed as it was received. -/
theorem faithful_two_pieces :
    (∀ c ∈ (run (Server.process bodies) (Server.start []) (halfPost.take 3)).all, c.id = 0 → Faithful c) ↔
      Always (Server.process bodies) (CleanReads 0) (Server.start []) (halfPost.take 3) :=
  faithful_iff bodies [] (halfPost.take 3) 0 (by decide)

end DealsServer
