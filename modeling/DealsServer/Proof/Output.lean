import DealsServer.Lib.Run
import DealsServer.Spec.Tcp

/-!
# Output of a connection

* `faithfulOutput_iff`: as long as no `send` fails and the connection is not reset, the bytes the socket took
  and those still in `data_out` are the bytes queued, in order, exactly if every `send` took all that it was
  offered.
* `partialSend_loses`: after a `send` that took one of two bytes, the other is in neither place.

`network_write` clears `data_out` whatever number of bytes `send` returns.
-/

namespace DealsServer

open StateMachine

/-- What `send` does: it fails, or the socket takes the first bytes, `more + 1` of them if there are so many. -/
inductive SendResult
  | failed
  | took (more : ℕ)
  deriving DecidableEq, Repr

/-- A connection with what its socket has taken so far. -/
structure Output where
  conn : TCPConnection
  taken : Bytes
  /-- a `send` has failed or the connection was reset -/
  broken : Bool
  deriving DecidableEq, Repr

/-- The calls that concern the output. -/
inductive OutputCall
  | write (out : Bytes)
  | closeWith (response : Bytes)
  | networkWrite (now : UInt32) (result : SendResult)
  | close
  | reset
  deriving DecidableEq, Repr

namespace Output

/-- The bytes queued so far. -/
def queued (s : Output) : Bytes := s.conn.written.flatten

/-- One call; `send` is called when `network_write` finds a length other than 0. -/
def step (s : Output) : OutputCall → Output
  | .write out => { s with conn := s.conn.write out }
  | .closeWith response => { s with conn := s.conn.closeWith response }
  | .networkWrite now result =>
    if s.conn.dataOut.length % 2 ^ 32 = 0 then s
    else
      match result with
      | .failed => { s with conn := s.conn.networkWrite now false, broken := true }
      | .took more => { s with conn := s.conn.networkWrite now true, taken := s.taken ++ s.conn.dataOut.take (more + 1) }
  | .close => { s with conn := s.conn.close }
  | .reset => { s with conn := s.conn.reset, broken := true }

/-- The connection has just been accepted. -/
def start (now : UInt32) : Output := ⟨.accepted now, [], false⟩

/-- Nothing queued is lost, doubled or moved, and the connection is alive until all of it is sent. -/
structure Faithful (s : Output) : Prop where
  bytes : s.taken ++ s.conn.dataOut = s.queued
  alive : s.conn.isAlive = false → s.taken = s.queued

/-- If the call sends, the socket takes all that it is offered. -/
def SendsAll (s : Output) (call : OutputCall) : Prop :=
  ∀ now more, call = .networkWrite now (.took more) → s.conn.dataOut.length % 2 ^ 32 ≠ 0 →
    s.conn.dataOut.length ≤ more + 1

/-- Some bytes are in neither place. -/
def Short (s : Output) : Prop := s.taken.length + s.conn.dataOut.length < s.queued.length

/-- **What a call does**: it queues bytes, leaves all bytes where they are, breaks the connection, or sends. -/
theorem step_cases (s : Output) (call : OutputCall) :
    (∃ out, (s.step call).queued = s.queued ++ out ∧ (s.step call).conn.dataOut = s.conn.dataOut ++ out ∧
        (s.step call).taken = s.taken) ∨
      (s.step call).broken = true ∨
      ∃ now more, call = .networkWrite now (.took more) ∧ s.conn.dataOut.length % 2 ^ 32 ≠ 0 ∧
        (s.step call).queued = s.queued ∧ (s.step call).conn.dataOut = [] ∧
        (s.step call).taken = s.taken ++ s.conn.dataOut.take (more + 1) := by
  cases call with
  | write out => exact .inl ⟨out, by simp [step, queued, TCPConnection.write], rfl, rfl⟩
  | closeWith out =>
    exact .inl ⟨out, by simp [step, queued, TCPConnection.closeWith, TCPConnection.write, TCPConnection.close], rfl, rfl⟩
  | networkWrite now result =>
    unfold step
    -- a length that wraps to 0 sends nothing and keeps the bytes
    by_cases hzero : s.conn.dataOut.length % 2 ^ 32 = 0
    · dsimp only
      rw [if_pos hzero]
      exact .inl ⟨[], by simp, by simp, rfl⟩
    · dsimp only
      rw [if_neg hzero]
      cases result with
      | failed => exact .inr (.inl rfl)
      | took more =>
        -- the buffer is emptied, whatever part of it was taken
        have hwrite : s.conn.networkWrite now true = { s.conn with lastBeatTime := now, dataOut := [] } := by
          rw [TCPConnection.networkWrite, if_neg hzero]
          rfl
        refine .inr (.inr ⟨now, more, rfl, hzero, ?_, ?_, rfl⟩)
        · dsimp only
          rw [queued, hwrite]
          rfl
        · dsimp only
          rw [hwrite]
  | close => exact .inl ⟨[], by simp [step, queued, TCPConnection.close], by simp [step, TCPConnection.close], rfl⟩
  | reset => exact .inr (.inl rfl)

/-- A broken connection stays broken. -/
theorem broken_step {s : Output} {call : OutputCall} (h : (s.step call).broken = false) : s.broken = false := by
  cases call with
  | networkWrite now result =>
    unfold step at h
    dsimp only at h
    split_ifs at h
    · exact h
    · cases result
      · cases h
      · exact h
  | reset => cases h
  | write | closeWith | close => exact h

theorem sendsAll_step {s : Output} {call : OutputCall} (h : s.taken ++ s.conn.dataOut = s.queued)
    (hlive : (s.step call).broken = false) (hok : SendsAll s call) :
    (s.step call).taken ++ (s.step call).conn.dataOut = (s.step call).queued := by
  obtain ⟨out, hq, hd, ht⟩ | hbroken | ⟨now, more, hcall, hne, hq, hd, ht⟩ := step_cases s call
  · rw [hq, hd, ht, ← List.append_assoc, h]
  · rw [hlive] at hbroken
    cases hbroken
  · rw [hq, hd, ht, List.take_of_length_le (hok now more hcall hne), List.append_nil, h]

/-- A `send` that takes a part leaves the output short. -/
theorem short_of_partial {s : Output} {call : OutputCall} (h : s.taken ++ s.conn.dataOut = s.queued)
    (hmiss : ¬ SendsAll s call) : Short (s.step call) := by
  unfold SendsAll at hmiss
  push Not at hmiss
  obtain ⟨now, more, hcall, hne, hlt⟩ := hmiss
  have hlen : s.queued.length = s.taken.length + s.conn.dataOut.length := by rw [← h, List.length_append]
  have hwrite : s.conn.networkWrite now true = { s.conn with lastBeatTime := now, dataOut := [] } := by
    rw [TCPConnection.networkWrite, if_neg hne]
    rfl
  have hstep : s.step call = { s with
      conn := { s.conn with lastBeatTime := now, dataOut := [] }
      taken := s.taken ++ s.conn.dataOut.take (more + 1) } := by
    rw [hcall, step, if_neg hne, hwrite]
  rw [hstep]
  show (s.taken ++ s.conn.dataOut.take (more + 1)).length + 0 < s.queued.length
  rw [List.length_append, List.length_take]
  omega

/-- What is missing stays missing. -/
theorem short_step {s : Output} {call : OutputCall} (h : Short s) (hlive : (s.step call).broken = false) :
    Short (s.step call) := by
  unfold Short at h ⊢
  obtain ⟨out, hq, hd, ht⟩ | hbroken | ⟨now, more, -, -, hq, hd, ht⟩ := step_cases s call
  · rw [hq, hd, ht, List.length_append, List.length_append]
    omega
  · rw [hlive] at hbroken
    cases hbroken
  · rw [hq, hd, ht, List.length_append, List.length_take, List.length_nil]
    omega

theorem faithful_of_bytes {s : Output} (h : s.taken ++ s.conn.dataOut = s.queued) : Faithful s := by
  refine ⟨h, fun hdead => ?_⟩
  -- a connection with output is alive
  have hempty : s.conn.dataOut = [] := by
    unfold TCPConnection.isAlive TCPConnection.hasSomethingToSend at hdead
    rw [Bool.or_eq_false_iff] at hdead
    simpa using hdead.1
  rw [hempty, List.append_nil] at h
  exact h

/-- **The output is faithful exactly if every `send` takes all that it is offered.** -/
theorem faithfulOutput_iff (now : UInt32) (calls : List OutputCall)
    (hlive : (run step (start now) calls).broken = false) :
    Faithful (run step (start now) calls) ↔ Always step SendsAll (start now) calls := by
  apply good_run_iff (fun s => s.taken ++ s.conn.dataOut = s.queued) Short Faithful (·.broken = false)
  · exact fun s call h => broken_step h
  · exact fun s call h hl hok => sendsAll_step h hl hok
  · exact fun s call h _ hmiss => short_of_partial h hmiss
  · exact fun s call h hl => short_step h hl
  · exact fun s h => faithful_of_bytes h
  · intro s hshort hgood
    unfold Short at hshort
    rw [← hgood.bytes, List.length_append] at hshort
    exact lt_irrefl _ hshort
  · rfl
  · exact hlive

/-- A response sent in one piece. -/
theorem faithfulOutput_whole :
    Faithful (run step (start 100) [.closeWith [1, 2], .networkWrite 101 (.took 1)]) ↔
      Always step SendsAll (start 100) [.closeWith [1, 2], .networkWrite 101 (.took 1)] :=
  faithfulOutput_iff 100 _ (by decide)

/-- The socket takes one of two bytes, and the other is lost. -/
theorem partialSend_loses :
    let s := run step (start 100) [.closeWith [1, 2], .networkWrite 101 (.took 0)]
    s.broken = false ∧ s.taken = [1] ∧ s.conn.dataOut = [] ∧ s.queued = [1, 2] ∧ s.conn.isAlive = false ∧
      ¬ Faithful s := by
  refine ⟨by decide, by decide, by decide, by decide, by decide, fun h => ?_⟩
  have := h.bytes
  revert this
  decide

end Output

end DealsServer
