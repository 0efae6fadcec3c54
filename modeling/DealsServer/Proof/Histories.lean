import DealsServer.Proof.Cheapest

/-!
# The history of a group

`findCheapestAndLast` goes backward over a history and stops at the last deal that it does not see outdated. It
looks for newer deals neither at index 0 nor directly before the deal, once it has gone back.

* `findTurns_eq`: the loop ends, and all its reads are inside of the history.
* `findsCheapest_iff`: the histories from which a cheapest current deal is returned.
-/

namespace DealsServer

open Quote

/-- The deals of one history, which are one group. -/
def oneGroup : Reading DealInfo UInt32 ℕ ℕ := reading fun _ => 0

/-- A deal that the loop leaves behind: an equal newer one stands at index 1 or later, and not directly before it. -/
def LeftBehind (history : List DealInfo) (j : ℕ) : Prop :=
  ∃ i d e, 1 ≤ i ∧ i + 1 < j ∧ history[i]? = some e ∧ history[j]? = some d ∧ oneGroup.Outdates e d

variable {history : List DealInfo} {len i j k : ℕ} {last : DealInfo}

/-- What the loop compares. -/
def outdating (last d : DealInfo) : Bool := equal d last && d.timestamp > last.timestamp

theorem outdating_iff (last d : DealInfo) : outdating last d = true ↔ oneGroup.Outdates d last := by
  simp [outdating, oneGroup, reading, Reading.Outdates, UInt32.lt_iff_toNat_lt]

theorem getElem?_getD (hi : i < history.length) : history[i]? = some (history.getD i .zero) := by
  rw [List.getD_eq_getElem?_getD, List.getElem?_eq_getElem hi, Option.getD_some]

/-! ## The loop ends -/

theorem findLoop_succ (history : List DealInfo) (len i : ℕ) (last : DealInfo) :
    findLoop history (len + 1) i last =
      if ((history.take (len + 1)).drop i).any (outdating last) then
        findLoop history len 1 (history.getD (len + 1) .zero)
      else last := rfl

/-- **The loop turn by turn.** It ends with the result of `findLoop`, and reads nothing outside of the history. -/
theorem findTurns_eq (hlen : len < history.length) (i : ℕ) (last : DealInfo) :
    ∃ n, findTurns history n ⟨i, len, last⟩ = some (findLoop history len i last) := by
  induction len generalizing i last with
  | zero =>
    refine ⟨1, ?_⟩
    simp [findTurns, findTurn, findLoop]
  | succ len ih =>
    -- the turns up to the next deal that outdates the last one
    obtain ⟨k, hk⟩ : ∃ k, k = len + 1 - i := ⟨_, rfl⟩
    induction k generalizing i with
    | zero =>
      refine ⟨1, ?_⟩
      have hdrop : (history.take (len + 1)).drop i = [] := by
        rw [List.drop_eq_nil_iff, List.length_take]
        omega
      have hdone : ¬ i < len + 1 := by omega
      simp [findTurns, findTurn, findLoop, hdone, hdrop]
    | succ k ihk =>
      have hi : i < len + 1 := by omega
      have hget : history[i]? = some history[i] := List.getElem?_eq_getElem (by omega)
      have hdrop : (history.take (len + 1)).drop i = history[i] :: (history.take (len + 1)).drop (i + 1) := by
        rw [List.drop_eq_getElem_cons (by rw [List.length_take]; omega), List.getElem_take]
      by_cases hout : outdating last history[i] = true
      · obtain ⟨n, hn⟩ := ih (by omega) 1 (history.getD (len + 1) .zero)
        refine ⟨n + 1, ?_⟩
        have hlast := getElem?_getD hlen
        have hturn : findTurn history ⟨i, len + 1, last⟩ = some (.inl ⟨1, len, history.getD (len + 1) .zero⟩) := by
          unfold outdating at hout
          simp only [findTurn, if_pos hi, hget, Option.bind_eq_bind, Option.bind_some, if_pos hout, hlast,
            Nat.succ_ne_zero, if_false, Nat.add_sub_cancel]
          rfl
        have hloop : findLoop history (len + 1) i last = findLoop history len 1 (history.getD (len + 1) .zero) := by
          rw [findLoop_succ, hdrop, List.any_cons, hout, Bool.true_or, if_pos rfl]
        rw [hloop, ← hn]
        simp only [findTurns, hturn]
      · obtain ⟨n, hn⟩ := ihk (i + 1) (by omega)
        refine ⟨n + 1, ?_⟩
        have hturn : findTurn history ⟨i, len + 1, last⟩ = some (.inl ⟨i + 1, len + 1, last⟩) := by
          unfold outdating at hout
          simp only [findTurn, if_pos hi, hget, Option.bind_eq_bind, Option.bind_some, if_neg hout]
          rfl
        have hloop : findLoop history (len + 1) i last = findLoop history (len + 1) (i + 1) last := by
          rw [findLoop_succ, findLoop_succ, hdrop, List.any_cons, Bool.eq_false_iff.2 hout, Bool.false_or]
        rw [hloop, ← hn]
        simp only [findTurns, hturn]

/-- The function ends, and reads nothing outside of the history. -/
theorem findCheapestAndLastIn_eq (history : List DealInfo) :
    ∃ n, findCheapestAndLastIn n history = some (findCheapestAndLast history) := by
  rcases history with _ | ⟨d, rest⟩
  · exact ⟨0, rfl⟩
  · have hlen : (d :: rest).length - 1 < (d :: rest).length := by simp
    obtain ⟨n, hn⟩ := findTurns_eq hlen 0 ((d :: rest).getD ((d :: rest).length - 1) .zero)
    refine ⟨n, ?_⟩
    rw [findCheapestAndLastIn, if_neg (by simp), getElem?_getD hlen]
    exact hn

/-! ## Where the loop stops -/


theorem any_outdating_iff :
    (((history.take len).drop i).any (outdating last) = true) ↔
      ∃ j e, i ≤ j ∧ j < len ∧ history[j]? = some e ∧ oneGroup.Outdates e last := by
  rw [List.any_eq_true]
  constructor
  · rintro ⟨e, he, hout⟩
    obtain ⟨j, hj⟩ := List.getElem?_of_mem he
    rw [List.getElem?_drop, List.getElem?_take] at hj
    split_ifs at hj with hlt
    exact ⟨i + j, e, by omega, hlt, hj, (outdating_iff _ _).1 hout⟩
  · rintro ⟨j, e, hij, hlt, he, hout⟩
    refine ⟨e, ?_, (outdating_iff _ _).2 hout⟩
    refine List.mem_of_getElem? (i := j - i) ?_
    rw [List.getElem?_drop, Nat.add_sub_cancel' hij, List.getElem?_take, if_pos hlt]
    exact he

/-- What the loop looks for behind the last deal at `len + 1`. -/
theorem any_leftBehind_iff (hlen : len + 1 < history.length) :
    ((history.take len).drop 1).any (outdating (history.getD (len + 1) .zero)) = true ↔
      LeftBehind history (len + 1) := by
  rw [any_outdating_iff]
  constructor
  · rintro ⟨i, e, hi, hlt, he, hout⟩
    exact ⟨i, _, e, hi, by omega, he, getElem?_getD hlen, hout⟩
  · rintro ⟨i, d, e, hi, hlt, he, hd, hout⟩
    rw [getElem?_getD hlen] at hd
    cases hd
    exact ⟨i, e, hi, by omega, he, hout⟩

/-- From `len + 1` the loop goes back to the last deal that is not left behind. -/
theorem findLoop_stops (hlen : len + 1 < history.length) (hk : k ≤ len + 1) (hstop : ¬ LeftBehind history k)
    (hback : ∀ j, k < j → j ≤ len + 1 → LeftBehind history j) :
    findLoop history len 1 (history.getD (len + 1) .zero) = history.getD k .zero := by
  induction len with
  | zero =>
    have hnone : ¬ LeftBehind history 1 := by
      rintro ⟨i, _, _, hi, hlt, -⟩
      omega
    have hone : k = 1 := by
      by_contra hne
      exact hnone (hback 1 (by omega) le_rfl)
    rw [hone]
    rfl
  | succ len ih =>
    have hany := any_leftBehind_iff hlen
    by_cases hlast : k = len + 2
    · subst hlast
      rw [findLoop_succ, if_neg fun hout => hstop (hany.1 hout)]
    · have hgoes := hback (len + 2) (by omega) le_rfl
      rw [findLoop_succ, if_pos (hany.2 hgoes)]
      exact ih (by omega) (by omega) fun j hj hle => hback j hj (by omega)

/-- **Where `findCheapestAndLast` stops**: at the last deal that is not left behind. -/
theorem findCheapestAndLast_stops (hk : k < history.length) (hstop : ¬ LeftBehind history k)
    (hback : ∀ j, k < j → j < history.length → LeftBehind history j) :
    history[k]? = some (findCheapestAndLast history) := by
  obtain ⟨m, hm⟩ : ∃ m, history.length = m + 1 := ⟨history.length - 1, by omega⟩
  have hfind : findCheapestAndLast history = findLoop history m 0 (history.getD m .zero) := by
    unfold findCheapestAndLast
    cases history with
    | nil => cases hm
    | cons d rest => rw [hm, Nat.add_sub_cancel]
  rw [getElem?_getD hk, hfind]
  congr 1
  rcases m with _ | len
  · rw [(by omega : k = 0)]
    rfl
  · rw [findLoop_succ]
    by_cases hany : ((history.take (len + 1)).drop 0).any (outdating (history.getD (len + 1) .zero)) = true
    · -- the first turn back stays at the last deal
      rw [if_pos hany]
      exact (findLoop_stops (by omega) (by omega) hstop fun j hj hle => hback j hj (by omega)).symm
    · rw [if_neg hany]
      have hlast : k = len + 1 := by
        by_contra hne
        obtain ⟨i, d, e, hi, hlt, he, hd, hout⟩ := hback (len + 1) (by omega) (by omega)
        rw [getElem?_getD (by omega)] at hd
        cases hd
        exact hany (any_outdating_iff.2 ⟨i, e, Nat.zero_le i, by omega, he, hout⟩)
      rw [hlast]

/-- Every history has a last deal that is not left behind. -/
theorem exists_stop (hne : history ≠ []) :
    ∃ k, k < history.length ∧ ¬ LeftBehind history k ∧ ∀ j, k < j → j < history.length → LeftBehind history j := by
  classical
  have hpos := List.length_pos_iff.2 hne
  have hfirst : ¬ LeftBehind history 0 := by
    rintro ⟨i, _, _, hi, hlt, -⟩
    omega
  refine ⟨Nat.findGreatest (fun j => ¬ LeftBehind history j) (history.length - 1), ?_, ?_, fun j hj hlt => ?_⟩
  · have := Nat.findGreatest_le (P := fun j => ¬ LeftBehind history j) (history.length - 1)
    omega
  · exact Nat.findGreatest_spec (P := fun j => ¬ LeftBehind history j) (Nat.zero_le _) hfirst
  · by_contra hout
    exact Nat.findGreatest_is_greatest hj (by omega) hout

/-! ## The result -/

/-- The loop ends inside of the history, on an element that no equal one outdates and than which no other current
element is cheaper. -/
structure FindsCheapest (history : List DealInfo) : Prop where
  ends : ∃ n, findCheapestAndLastIn n history = some (findCheapestAndLast history)
  cheapest : oneGroup.Cheapest (book history) (findCheapestAndLast history)

/-- **A cheapest current deal is found** exactly when all deals behind one of these are left behind. -/
theorem findsCheapest_iff (history : List DealInfo) :
    FindsCheapest history ↔
      ∃ k d, history[k]? = some d ∧ oneGroup.Cheapest (book history) d ∧
        ∀ j, k < j → j < history.length → LeftBehind history j := by
  constructor
  · intro h
    have hmem : findCheapestAndLast history ∈ history := h.cheapest.1.1
    obtain ⟨k, hk, hstop, hback⟩ := exists_stop (List.ne_nil_of_mem hmem)
    exact ⟨k, _, findCheapestAndLast_stops hk hstop hback, h.cheapest, hback⟩
  · rintro ⟨k, d, hd, hcheap, hback⟩
    have hk : k < history.length := (List.getElem?_eq_some_iff.1 hd).1
    -- a current deal is never left behind
    have hstop : ¬ LeftBehind history k := by
      rintro ⟨i, d', e, -, -, he, hd', hout⟩
      rw [hd] at hd'
      cases hd'
      exact hcheap.1.2 e (List.mem_of_getElem? he) hout
    have hfind := findCheapestAndLast_stops hk hstop hback
    rw [hd] at hfind
    refine ⟨findCheapestAndLastIn_eq history, ?_⟩
    rw [← Option.some.inj hfind]
    exact hcheap

/-- A deal of the history of the counterexample. -/
def offer (timestamp price departureDate : UInt32) : DealInfo :=
  { DealInfo.zero with timestamp := timestamp, price := price, departureDate := departureDate }

/-- **An outdated deal is returned**: the newer quote of its itinerary stands at index 0. -/
theorem outdated_found : ¬ FindsCheapest [offer 10 10 1, offer 7 9 2, offer 5 8 1] := by
  intro h
  have hfind : findCheapestAndLast [offer 10 10 1, offer 7 9 2, offer 5 8 1] = offer 5 8 1 := by decide
  have hcurrent := h.cheapest.1.2 (offer 10 10 1) (by simp [book])
  rw [hfind] at hcurrent
  have hsame : equal (offer 10 10 1) (offer 5 8 1) = true := by decide
  exact hcurrent ⟨rfl, hsame, by decide⟩

end DealsServer
