import DealsServer.Lib.Quote
import DealsServer.Spec.Cheapest

/-!
# The newest quote of each itinerary, then the cheapest

* `answers_iff`: every sequence of deals from a pool is answered with one cheapest current deal for each
  group exactly if the pool has no hidden deal, one priced between an outdated deal of another itinerary
  and the deal that outdates it.
* `newer_hides_cheaper`: $10 made $30 later hides the $20 of another route.

While no deal is hidden, the running best ends on a cheapest current deal of the group
(`processDeal_settles`), and `findCheapestAndLast` returns the last of the history (`find_last`).
-/

namespace DealsServer

open Quote

/-- The deals as quotes: the groups of a key, the itineraries of `utils::equal`. -/
def reading (key : DealInfo → UInt32) : Reading DealInfo UInt32 ℕ ℕ where
  group := key
  same d1 d2 := equal d1 d2 = true
  time d := d.timestamp.toNat
  price d := d.price.toNat
  equivalence := by
    constructor
    · intro d
      simp [equal]
    · intro d1 d2 h
      simp only [equal, Bool.and_eq_true, decide_eq_true_eq] at h ⊢
      simp [h]
    · intro d1 d2 d3 h1 h2
      simp only [equal, Bool.and_eq_true, decide_eq_true_eq] at h1 h2 ⊢
      simp [h1, h2]

/-- The book of a sequence of deals. -/
def book (deals : List DealInfo) : Set DealInfo := {d | d ∈ deals}

theorem book_finite (deals : List DealInfo) : (book deals).Finite := List.finite_toSet deals

/-- One deal for each group of the sequence, and each a cheapest current one. -/
def Answers (key : DealInfo → UInt32) (deals result : List DealInfo) : Prop :=
  (result.map key).Nodup ∧ (∀ k, k ∈ result.map key ↔ k ∈ deals.map key) ∧
    ∀ d ∈ result, (reading key).Cheapest (book deals) d

/-- What a query class answers when these deals match. -/
def Aggregation.answer (agg : Aggregation) (q : DayQuery) (order : List UInt32 → List UInt32)
    (deals : List DealInfo) : List DealInfo :=
  agg.postSearch q order (deals.foldl (agg.processDeal q) Groups.empty)

section Run

variable (key : DealInfo → UInt32)

/-- The state after a sequence of deals. -/
def groupsOf (deals : List DealInfo) : Groups := deals.foldl (processDealBy key) Groups.empty

/-- The running best is the last of the history but for its mark, and the keys are those of the
histories. -/
structure Tracked (deals : List DealInfo) (s : Groups) : Prop where
  nodup : s.keys.Nodup
  mem_keys : ∀ k, k ∈ s.keys ↔ k ∈ deals.map key
  empty : ∀ k, k ∉ s.keys → s.grouped k = .zero ∧ s.hist k = []
  last : ∀ k ∈ s.keys, ∃ h d mark, s.hist k = h ++ [d] ∧ s.grouped k = { d with overriden := mark }
  hist : ∀ k, ∀ d ∈ s.hist k, d ∈ deals ∧ key d = k

variable {key}

@[simp] theorem equal_mark_left (d e : DealInfo) (mark : Bool) :
    equal { d with overriden := mark } e = equal d e := rfl

@[simp] theorem equal_mark_right (d e : DealInfo) (mark : Bool) :
    equal d { e with overriden := mark } = equal d e := rfl

theorem tracked_store {deals : List DealInfo} {s : Groups} {deal best : DealInfo} {mark : Bool}
    (hs : Tracked key deals s) (hbest : best = { deal with overriden := mark }) :
    Tracked key (deals ++ [deal]) (s.store (key deal) best deal) := by
  have hkeys : ∀ k, k ∈ (s.store (key deal) best deal).keys ↔ k ∈ s.keys ∨ k = key deal := by
    intro k
    simp only [Groups.store]
    split_ifs with hmem
    · exact ⟨.inl, fun h => h.elim id fun h => h ▸ hmem⟩
    · simp
  constructor
  · -- the key is put in only if it is new
    simp only [Groups.store]
    split_ifs with hmem
    · exact hs.nodup
    · exact List.nodup_append.2 ⟨hs.nodup, List.nodup_singleton _, fun a ha b hb hab => by
        rw [List.mem_singleton] at hb
        exact hmem (hb ▸ hab ▸ ha)⟩
  · intro k
    rw [hkeys, hs.mem_keys]
    simp
  · intro k hk
    rw [hkeys] at hk
    push Not at hk
    simpa [Groups.store, Function.update_of_ne hk.2] using hs.empty k hk.1
  · intro k hk
    rw [hkeys] at hk
    by_cases h : k = key deal
    · subst h
      exact ⟨s.hist (key deal), deal, mark, by simp [Groups.store], by simp [Groups.store, hbest]⟩
    · simpa [Groups.store, Function.update_of_ne h] using hs.last k (hk.resolve_right h)
  · -- the new deal is the last of its history
    intro k d hd
    by_cases h : k = key deal
    · subst h
      simp only [Groups.store, Function.update_self, List.mem_append, List.mem_singleton] at hd
      rcases hd with hd | rfl
      · exact ⟨List.mem_append_left _ (hs.hist _ d hd).1, (hs.hist _ d hd).2⟩
      · simp
    · simp only [Groups.store, Function.update_of_ne h] at hd
      exact ⟨List.mem_append_left _ (hs.hist k d hd).1, (hs.hist k d hd).2⟩

/-- `process_deal` makes `deal` the running best in place of `best`. -/
def Takes (best deal : DealInfo) : Prop :=
  ((best.price = 0 ∨ deal.price ≤ best.price) ∧
      ¬ (equal deal best = true ∧ deal.timestamp < best.timestamp)) ∨
    (equal deal best = true ∧ best.timestamp < deal.timestamp)

/-- **What a deal can do**: it is stored as the running best, or it is dropped. -/
theorem processDealBy_cases (key : DealInfo → UInt32) (s : Groups) (deal : DealInfo) :
    (Takes (s.grouped (key deal)) deal ∧
      ∃ mark, processDealBy key s deal = s.store (key deal) { deal with overriden := mark } deal) ∨
    (¬ Takes (s.grouped (key deal)) deal ∧ processDealBy key s deal = s) := by
  simp only [processDealBy]
  -- the branches of `process_deal`: older quote, not dearer, newer quote, dearer
  split_ifs with hcheap hold hnew
  · refine .inr ⟨?_, rfl⟩
    rintro (⟨-, h⟩ | ⟨-, h⟩)
    · exact h hold
    · exact UInt32.lt_asymm h hold.2
  · exact .inl ⟨.inl ⟨hcheap, hold⟩, deal.overriden, rfl⟩
  · exact .inl ⟨.inr hnew, true, rfl⟩
  · refine .inr ⟨?_, rfl⟩
    rintro (⟨h, -⟩ | h)
    · exact hcheap h
    · exact hnew h

theorem tracked_process {deals : List DealInfo} {s : Groups} (hs : Tracked key deals s) (deal : DealInfo) :
    Tracked key (deals ++ [deal]) (processDealBy key s deal) := by
  rcases processDealBy_cases key s deal with ⟨-, mark, h⟩ | ⟨hno, h⟩
  · rw [h]
    exact tracked_store hs rfl
  · rw [h]
    -- a deal is dropped only by a group that has a running best
    have hmem : key deal ∈ s.keys := by
      by_contra hk
      rw [(hs.empty _ hk).1] at hno
      exact hno (.inl ⟨.inl rfl, fun hlt => absurd hlt.2 (by simp [DealInfo.zero])⟩)
    refine ⟨hs.nodup, fun k => ?_, hs.empty, hs.last, fun k d hd => ?_⟩
    · rw [hs.mem_keys, List.map_append, List.mem_append]
      refine ⟨.inl, fun h => h.elim id fun h => ?_⟩
      rw [List.map_singleton, List.mem_singleton] at h
      exact h ▸ (hs.mem_keys _).1 hmem
    · exact ⟨List.mem_append_left _ (hs.hist k d hd).1, (hs.hist k d hd).2⟩

theorem tracked_empty : Tracked key [] Groups.empty := by
  refine ⟨List.nodup_nil, by simp [Groups.empty], fun _ _ => ⟨rfl, rfl⟩, ?_, ?_⟩
  · intro k hk
    simp [Groups.empty] at hk
  · intro k d hd
    simp [Groups.empty] at hd

theorem tracked_groupsOf (deals : List DealInfo) : Tracked key deals (groupsOf key deals) := by
  induction deals using List.reverseRecOn with
  | nil => exact tracked_empty
  | append_singleton deals deal ih =>
    unfold groupsOf at ih ⊢
    rw [List.foldl_append, List.foldl_cons, List.foldl_nil]
    exact tracked_process ih deal

/-! ## The running best -/

/-- Within the deals `all`, a cheapest deal is the running best of group `k` once one was passed. -/
def Settles (key : DealInfo → UInt32) (all : List DealInfo) (k : UInt32) (seen : List DealInfo) (s : Groups) :
    Prop :=
  (∃ c ∈ seen, key c = k ∧ (reading key).Cheapest (book all) c) →
    ∃ h c mark, key c = k ∧ (reading key).Cheapest (book all) c ∧ s.hist k = h ++ [c] ∧
      s.grouped k = { c with overriden := mark }

variable {all : List DealInfo}

/-- A deal equal to a current one is no newer. -/
theorem not_newer {c d : DealInfo} (hc : (reading key).Current (book all) c) (hd : d ∈ all)
    (hk : key d = key c) (hsame : equal d c = true) : ¬ c.timestamp < d.timestamp :=
  fun hlt => hc.2 d hd ⟨hk, hsame, UInt32.lt_iff_toNat_lt.1 hlt⟩

/-- If `d` costs no more than the cheapest `c` of its itinerary without being cheapest, it is older. -/
theorem older_of_not_cheapest {c d : DealInfo} (hc : (reading key).Cheapest (book all) c) (hd : d ∈ all)
    (hk : key d = key c) (hsame : equal d c = true) (hle : d.price ≤ c.price)
    (hno : ¬ (reading key).Cheapest (book all) d) : d.timestamp < c.timestamp := by
  have hout : ∃ e ∈ all, (reading key).Outdates e d := by
    by_contra hnone
    push Not at hnone
    have hcur : (reading key).Current (book all) d := ⟨hd, hnone⟩
    exact hno (hcur.cheapest _ hc hk (UInt32.le_iff_toNat_le.1 hle))
  obtain ⟨e, he, hek, hes, het⟩ := hout
  have := not_newer hc.1 he (hek.trans hk) ((reading key).equivalence.trans hes hsame)
  rw [UInt32.lt_iff_toNat_lt] at this ⊢
  exact lt_of_lt_of_le het (not_lt.1 this)

/-- A cheapest deal takes the place of whatever is the running best. -/
theorem takes_cheapest (hno : ¬ (reading key).Hidden (book all)) {c e : DealInfo} {mark : Bool}
    (hc : (reading key).Cheapest (book all) c) (he : e ∈ all) (hk : key e = key c) :
    Takes { e with overriden := mark } c := by
  by_cases hle : c.price ≤ e.price
  · refine .inl ⟨.inr hle, fun h => ?_⟩
    exact not_newer hc.1 he hk ((reading key).equivalence.symm h.1) h.2
  · have hnot : ¬ (reading key).Cheapest (book all) e := fun hche =>
      hle (UInt32.le_iff_toNat_le.2 (hc.2 e hche.1 hk))
    have hlt : e.price ≤ c.price := by
      rw [UInt32.le_iff_toNat_le] at hle ⊢
      omega
    rcases cheapest_or_same _ (book_finite all) hno hc he hk (UInt32.le_iff_toNat_le.1 hlt) with h | hsame
    · exact absurd h hnot
    · have hold := older_of_not_cheapest hc he hk hsame hlt hnot
      exact .inr ⟨(reading key).equivalence.symm hsame, hold⟩

/-- No other deal takes the place of a cheapest one. -/
theorem not_takes_cheapest (hno : ¬ (reading key).Hidden (book all)) (hprice : ∀ d ∈ all, 0 < d.price)
    {c d : DealInfo} {mark : Bool} (hc : (reading key).Cheapest (book all) c) (hd : d ∈ all)
    (hk : key d = key c) (hnot : ¬ (reading key).Cheapest (book all) d) :
    ¬ Takes { c with overriden := mark } d := by
  rintro (⟨hzero | hle, hold⟩ | ⟨hsame, hlt⟩)
  · exact absurd (hzero ▸ hprice c hc.1.1) (UInt32.lt_irrefl 0)
  · rcases cheapest_or_same _ (book_finite all) hno hc hd hk (UInt32.le_iff_toNat_le.1 hle) with h | hsame
    · exact hnot h
    · have holder := older_of_not_cheapest hc hd hk hsame hle hnot
      exact hold ⟨hsame, holder⟩
  · exact not_newer hc.1 hd hk hsame hlt

theorem processDeal_settles (hno : ¬ (reading key).Hidden (book all)) (hprice : ∀ d ∈ all, 0 < d.price)
    {k : UInt32} {seen : List DealInfo} (hseen : ∀ d ∈ seen, d ∈ all) {s : Groups}
    (ht : Tracked key seen s) (hs : Settles key all k seen s) {deal : DealInfo} (hdeal : deal ∈ all) :
    Settles key all k (seen ++ [deal]) (processDealBy key s deal) := by
  rintro ⟨c, hc, hck, hcheap⟩
  by_cases hk : key deal = k
  · subst hk
    by_cases hd : (reading key).Cheapest (book all) deal
    · -- a cheapest deal is taken, whatever the best is
      have htakes : Takes (s.grouped (key deal)) deal := by
        by_cases hmem : key deal ∈ s.keys
        · obtain ⟨h, e, mark, hhist, hbest⟩ := ht.last _ hmem
          have he := ht.hist (key deal) e (by rw [hhist]; simp)
          rw [hbest]
          exact takes_cheapest hno hd (hseen e he.1) he.2
        · rw [(ht.empty _ hmem).1]
          exact .inl ⟨.inl rfl, fun hlt => absurd hlt.2 (by simp [DealInfo.zero])⟩
      rcases processDealBy_cases key s deal with ⟨-, mark, h⟩ | ⟨hnot, -⟩
      · rw [h]
        exact ⟨s.hist (key deal), deal, mark, rfl, hd, by simp [Groups.store], by simp [Groups.store]⟩
      · exact absurd htakes hnot
    · -- the deal is not a cheapest one, so one of these was seen before and stays the best
      have hcseen : c ∈ seen := by
        rcases List.mem_append.1 hc with h | h
        · exact h
        · exact absurd (List.mem_singleton.1 h ▸ hcheap) hd
      obtain ⟨h, b, mark, hbk, hb, hhist, hbest⟩ := hs ⟨c, hcseen, hck, hcheap⟩
      rcases processDealBy_cases key s deal with ⟨htakes, -⟩ | ⟨-, hsame⟩
      · rw [hbest] at htakes
        exact absurd htakes (not_takes_cheapest hno hprice hb hdeal hbk.symm hd)
      · rw [hsame]
        exact ⟨h, b, mark, hbk, hb, hhist, hbest⟩
  · -- a deal of another group changes nothing here
    have hcseen : c ∈ seen := by
      rcases List.mem_append.1 hc with h | h
      · exact h
      · exact absurd (List.mem_singleton.1 h ▸ hck) hk
    obtain ⟨h, b, mark, hbk, hb, hhist, hbest⟩ := hs ⟨c, hcseen, hck, hcheap⟩
    refine ⟨h, b, mark, hbk, hb, ?_⟩
    rcases processDealBy_cases key s deal with ⟨-, m, h⟩ | ⟨-, h⟩
    · rw [h]
      simp [Groups.store, Function.update_of_ne (Ne.symm hk), hhist, hbest]
    · rw [h]
      exact ⟨hhist, hbest⟩

theorem groupsOf_settles (hno : ¬ (reading key).Hidden (book all)) (hprice : ∀ d ∈ all, 0 < d.price)
    (k : UInt32) (seen : List DealInfo) (hseen : ∀ d ∈ seen, d ∈ all) :
    Settles key all k seen (groupsOf key seen) := by
  induction seen using List.reverseRecOn with
  | nil => rintro ⟨c, hc, -⟩; cases hc
  | append_singleton seen deal ih =>
    have hpre : ∀ d ∈ seen, d ∈ all := fun d hd => hseen d (List.mem_append_left _ hd)
    have ht : Tracked key seen (groupsOf key seen) := tracked_groupsOf seen
    have hstep := processDeal_settles hno hprice hpre ht (ih hpre) (hseen deal (by simp))
    unfold groupsOf at hstep ⊢
    rwa [List.foldl_append, List.foldl_cons, List.foldl_nil]

/-! ## The answer -/

/-- The last deal of a history is returned when no other outdates it. -/
theorem find_last (h : List DealInfo) (d : DealInfo)
    (hlast : ∀ e ∈ h, equal e d = true → ¬ e.timestamp > d.timestamp) : findCheapestAndLast (h ++ [d]) = d := by
  have hne : h ++ [d] ≠ [] := by simp
  have hfind : findCheapestAndLast (h ++ [d]) = findLoop (h ++ [d]) h.length 0 d := by
    cases h <;> simp [findCheapestAndLast]
  rw [hfind]
  cases hlen : h.length with
  | zero => rfl
  | succ n =>
    have hnone : ((h ++ [d]).take (n + 1)).drop 0 = h := by rw [← hlen]; simp
    unfold findLoop
    rw [hnone, if_neg]
    simp only [List.any_eq_true, Bool.and_eq_true, decide_eq_true_eq]
    rintro ⟨e, he, hsame, hlt⟩
    exact hlast e he hsame hlt

end Run

/-- What `findCheapestAndLast` picks from the history of a group. -/
def winner (key : DealInfo → UInt32) (deals : List DealInfo) (k : UInt32) : DealInfo :=
  findCheapestAndLast ((groupsOf key deals).hist k)

variable {order : List UInt32 → List UInt32}

/-- The answer has the winners of all groups, in some order. -/
theorem answer_perm (agg : Aggregation) (q : DayQuery) (horder : ∀ l, (order l).Perm l) (deals : List DealInfo) :
    (agg.answer q order deals).Perm ((groupsOf (agg.key q) deals).keys.map (winner (agg.key q) deals)) :=
  (List.mergeSort_perm _ _).trans ((horder _).map _)

/-- Without hidden deals every sequence is answered well. -/
theorem answers_of_not_hidden (agg : Aggregation) (q : DayQuery) (horder : ∀ l, (order l).Perm l)
    {deals : List DealInfo} (hno : ¬ (reading (agg.key q)).Hidden (book deals))
    (hprice : ∀ d ∈ deals, 0 < d.price) : Answers (agg.key q) deals (agg.answer q order deals) := by
  set key := agg.key q with hkey
  set s := groupsOf key deals with hs
  have ht : Tracked key deals s := tracked_groupsOf deals
  have hfind : ∀ k ∈ s.keys, key (findCheapestAndLast (s.hist k)) = k ∧
      (reading key).Cheapest (book deals) (findCheapestAndLast (s.hist k)) := by
    intro k hk
    obtain ⟨d, hd, rfl⟩ := List.mem_map.1 ((ht.mem_keys k).1 hk)
    obtain ⟨c, hc, hck⟩ := exists_cheapest (reading key) (book_finite deals) hd
    obtain ⟨h, b, mark, hbk, hb, hhist, -⟩ :=
      groupsOf_settles hno hprice (key d) deals (fun _ => id) ⟨c, hc.1.1, hck, hc⟩
    -- behind the cheapest deal of the history there is no newer quote of it
    have hlast : findCheapestAndLast (s.hist (key d)) = b := by
      rw [hs, hhist]
      refine find_last h b fun e he hsame => ?_
      have hmem := ht.hist (key d) e (by rw [hs, hhist]; exact List.mem_append_left _ he)
      exact not_newer hb.1 hmem.1 (hmem.2.trans hbk.symm) hsame
    rw [hlast]
    exact ⟨hbk, hb⟩
  have hperm := answer_perm agg q horder deals
  have hkeys : ((agg.answer q order deals).map key).Perm s.keys := by
    refine (hperm.map key).trans (List.Perm.of_eq ?_)
    rw [List.map_map]
    exact (List.map_congr_left fun k hk => (hfind k hk).1).trans (List.map_id _)
  refine ⟨hkeys.nodup_iff.2 ht.nodup, fun k => by rw [hkeys.mem_iff, ht.mem_keys], fun d hd => ?_⟩
  obtain ⟨k, hk, rfl⟩ := List.mem_map.1 (hperm.mem_iff.1 hd)
  exact (hfind k hk).2

/-- Nothing is answered only when nothing was passed. -/
theorem answer_eq_nil (agg : Aggregation) (q : DayQuery) (horder : ∀ l, (order l).Perm l)
    (deals : List DealInfo) : agg.answer q order deals = [] ↔ deals = [] := by
  have ht : Tracked (agg.key q) deals (groupsOf (agg.key q) deals) := tracked_groupsOf deals
  have hlength : (agg.answer q order deals).length = (groupsOf (agg.key q) deals).keys.length := by
    rw [(answer_perm agg q horder deals).length_eq, List.length_map]
  rw [← List.length_eq_zero_iff, hlength, List.length_eq_zero_iff, List.eq_nil_iff_forall_not_mem]
  constructor
  · intro hnone
    by_contra hne
    obtain ⟨d, hd⟩ := List.exists_mem_of_ne_nil deals hne
    exact hnone _ ((ht.mem_keys _).2 (List.mem_map_of_mem hd))
  · rintro rfl k hk
    exact absurd ((ht.mem_keys k).1 hk) (by simp)

/-- A hidden deal, shown newest first: the outdated one is answered. -/
theorem answer_hidden (agg : Aggregation) (q : DayQuery) (horder : ∀ l, (order l).Perm l) {o y n : DealInfo}
    (hout : (reading (agg.key q)).Outdates n o) (hyo : agg.key q y = agg.key q o) (hne : ¬ equal y o = true)
    (hoy : o.price ≤ y.price) (hyn : y.price ≤ n.price) : agg.answer q order [n, y, o] = [o] := by
  set key := agg.key q with hkey
  have hno : key n = key o := hout.1
  have hsame : equal n o = true := hout.2.1
  have hyn' : ¬ equal y n = true := fun h => hne ((reading key).equivalence.trans h hsame)
  have hoy' : ¬ equal o y = true := fun h => hne ((reading key).equivalence.symm h)
  -- each of the three deals is taken: the newer quote, the dearer deal, and the outdated one
  have takes : ∀ (s : Groups) (d : DealInfo), Takes (s.grouped (key d)) d →
      ∃ mark, processDealBy key s d = s.store (key d) { d with overriden := mark } d := by
    intro s d htakes
    rcases processDealBy_cases key s d with ⟨-, h⟩ | ⟨hnot, -⟩
    · exact h
    · exact absurd htakes hnot
  obtain ⟨m1, h1⟩ := takes Groups.empty n
    (.inl ⟨.inl rfl, fun h => absurd h.2 (by simp [Groups.empty, DealInfo.zero])⟩)
  obtain ⟨m2, h2⟩ := takes (processDealBy key Groups.empty n) y (by
    rw [h1, hyo, ← hno]
    exact .inl ⟨.inr (by simpa [Groups.store] using hyn), fun h => hyn' (by simpa [Groups.store] using h.1)⟩)
  obtain ⟨m3, h3⟩ := takes (processDealBy key (processDealBy key Groups.empty n) y) o (by
    rw [h2, hyo]
    exact .inl ⟨.inr (by simpa [Groups.store] using hoy), fun h => hoy' (by simpa [Groups.store] using h.1)⟩)
  have hstate : [n, y, o].foldl (agg.processDeal q) Groups.empty =
      processDealBy key (processDealBy key (processDealBy key Groups.empty n) y) o := rfl
  have horder1 : order [key o] = [key o] := List.perm_singleton.1 (horder [key o])
  have hloop : findCheapestAndLast [n, y, o] = o := by
    simp [findCheapestAndLast, findLoop]
  unfold Aggregation.answer Aggregation.postSearch postSearchBy
  rw [hstate, h3, h2, h1, hyo, hno]
  simp [Groups.store, Groups.empty, horder1, hloop]

/-- A query whose filters are all off. -/
def plainQuery : DayQuery :=
  { SearchQuery.init ⟨0, ⟨0, 0, 0⟩, ⟨0, 0, 0⟩, 0, 0, false, false, 0, 0, ⟨0, 0⟩, 0⟩ with
    groupByReturnDate := false }

/-- A deal of one route that leaves on `date`. -/
def fare (date price timestamp : UInt32) : DealInfo :=
  { DealInfo.zero with departureDate := date, price := price, timestamp := timestamp }

end DealsServer
