import DealsServer.Lib.Run

/-!
# One object and its clients

An object serves one request after another: `serve d q` is the reply to `q` and the object after it. A log lists the
requests that were served, each with the number of its client.

* `after`, `replies`: the object after a log, and what its clients were told.
* `ofClient`: the part of a log that one client has to do with.
* `replies_snoc`: a request that is served goes to the end of the log, and changes no earlier reply.
* `mem_replies`: every reply has its turn.
-/

namespace Sequential

open StateMachine

variable {D Q R K β : Type*} [DecidableEq K] (serve : D → Q → R × D)

/-- The object after the requests of a log. -/
def after (d : D) (log : List (ℕ × Q)) : D := run (fun d e => (serve d e.2).2) d log

/-- The replies to the requests of a log. -/
def replies : D → List (ℕ × Q) → List (ℕ × R)
  | _, [] => []
  | d, e :: log => (e.1, (serve d e.2).1) :: replies (serve d e.2).2 log

/-- The part of the client `k`. -/
def ofClient (k : K) (l : List (K × β)) : List β := (l.filter fun e => e.1 = k).map Prod.snd

variable {serve} {d : D} {log : List (ℕ × Q)} {k j : K}

theorem after_snoc (d : D) (log : List (ℕ × Q)) (k : ℕ) (q : Q) :
    after serve d (log ++ [(k, q)]) = (serve (after serve d log) q).2 := run_append ..

theorem replies_append (d : D) (log log' : List (ℕ × Q)) :
    replies serve d (log ++ log') = replies serve d log ++ replies serve (after serve d log) log' := by
  induction log generalizing d with
  | nil => rfl
  | cons e log ih => exact congrArg _ (ih _)

/-- **A request that is served changes no earlier reply.** -/
theorem replies_snoc (d : D) (log : List (ℕ × Q)) (k : ℕ) (q : Q) :
    replies serve d (log ++ [(k, q)]) = replies serve d log ++ [(k, (serve (after serve d log) q).1)] :=
  replies_append d log [(k, q)]

@[simp] theorem ofClient_nil (k : K) : ofClient k ([] : List (K × β)) = [] := rfl

theorem ofClient_snoc_self (k : K) (l : List (K × β)) (b : β) : ofClient k (l ++ [(k, b)]) = ofClient k l ++ [b] := by
  simp [ofClient]

theorem ofClient_snoc_ne (h : j ≠ k) (l : List (K × β)) (b : β) : ofClient j (l ++ [(k, b)]) = ofClient j l := by
  simp [ofClient, h.symm]

theorem mem_ofClient {l : List (K × β)} {b : β} : b ∈ ofClient k l ↔ (k, b) ∈ l := by
  simp [ofClient]

/-- A client that has asked for nothing was told nothing. -/
theorem ofClient_eq_nil {l : List (K × β)} (h : ∀ e ∈ l, e.1 ≠ k) : ofClient k l = [] := by
  rw [ofClient, List.map_eq_nil_iff, List.filter_eq_nil_iff]
  simpa using h

/-- **A reply has its turn**: it is what the object replied after the requests before. -/
theorem mem_replies {e : ℕ × R} (h : e ∈ replies serve d log) :
    ∃ pre q post, log = pre ++ (e.1, q) :: post ∧ e.2 = (serve (after serve d pre) q).1 := by
  induction log generalizing d with
  | nil => cases h
  | cons a log ih =>
    rcases List.mem_cons.1 h with rfl | h
    · exact ⟨[], a.2, log, rfl, rfl⟩
    · obtain ⟨pre, q, post, rfl, hreply⟩ := ih h
      exact ⟨a :: pre, q, post, rfl, hreply⟩

end Sequential
