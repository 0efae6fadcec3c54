import DealsServer.Proof.Names

/-!
# Live records

* `liveRecords`: in a run of any number of processes, the slots handed out on a page between two resets of
  its entry lie in the page and do not overlap, and those of a record that is still live are selected by
  `processRecords`, each once.

Two invariants carry this. The used entries are the first ones of the index, since scans stop at the first
unused entry (`Packed`). And from the step that hands out slots on, as long as the entry is not reset, the
entry expires no earlier than the record and the slots stay below those that are free (`Holds`).
-/

namespace DealsServer

open StateMachine

variable {α : Type} {cfg : TableConfig}

/-! ## The order of the index -/

/-- The used entries are the first ones, their names are valid, and no expiry is about to overflow. -/
structure Packed (cfg : TableConfig) (index : ℕ → TablePageIndexElement) : Prop where
  used : ∀ i j, i < j → j < cfg.tableMaxPages → 0 < (index j).expireAt → 0 < (index i).expireAt
  small : ∀ i < cfg.tableMaxPages, (index i).expireAt + removeExpiredPagesDelaySec < 2 ^ 32
  valid : NamesValid cfg index

theorem delay_lt : 0 + removeExpiredPagesDelaySec < 2 ^ 32 := by decide

theorem Clears.small {v v' : View α} {lo hi : ℕ} (h : Clears cfg v v' lo hi)
    (hs : ∀ i < cfg.tableMaxPages, (v.shared.index i).expireAt + removeExpiredPagesDelaySec < 2 ^ 32) :
    ∀ i < cfg.tableMaxPages, (v'.shared.index i).expireAt + removeExpiredPagesDelaySec < 2 ^ 32 := by
  intro i hi
  rw [h.index_eq]
  split_ifs
  · exact delay_lt
  · exact hs i hi

theorem Releases.packed {v v' : View α} {now b e : ℕ} (h : Releases cfg v v' now b e)
    (hp : Packed cfg v.shared.index) : Packed cfg v'.shared.index :=
  ⟨h.usedFirst hp.used, h.clears.small hp.small, h.clears.namesValid hp.valid⟩

theorem CleansUp.packed {v v' : View α} {c : ℕ} (h : CleansUp cfg v v' false c)
    (hp : Packed cfg v.shared.index) : Packed cfg v'.shared.index :=
  ⟨h.usedFirst hp.used, h.clears.small hp.small, h.clears.namesValid hp.valid⟩

theorem Reserves.packed {v v' : View α} {now count lifetime : ℕ} {memLow : Bool} {r : Reservation}
    (h : Reserves cfg v v' now memLow count lifetime r) (hf : NamesFormed cfg v.shared.index)
    (hp : Packed cfg v.shared.index) (hpos : 0 < now)
    (hexp : cfg.expireTime now lifetime = now + cfg.lifetime lifetime)
    (hsmall : now + cfg.lifetime lifetime + removeExpiredPagesDelaySec < 2 ^ 32)
    (hlow : memLow = true → ∃ idx < cfg.tableMaxPages, 0 < (v.shared.index idx).expireAt) :
    Packed cfg v'.shared.index := by
  refine ⟨h.usedFirst hp.used (by omega), fun i hi => ?_, ?_⟩
  · by_cases hir : i = r.idx
    · have hold := hp.small r.idx h.idx_lt
      rw [hir]
      rcases h.outcome with hcont | hrest
      · rw [hcont.expireAt_eq, hexp]
        omega
      · rw [hrest.expireAt_eq, hexp]
        omega
    · rw [h.others i hir]
      exact hp.small i hi
  · apply h.namesValid hf hp.valid
    intro hmem hzero
    obtain ⟨idx, hlt, hused⟩ := hlow hmem
    have hfirst : 0 < (v.shared.index 0).expireAt := by
      rcases Nat.eq_zero_or_pos idx with rfl | hi
      · exact hused
      · exact hp.used 0 idx hi hlt hused
    omega

/-! ## Live records and their selection -/

/-- The slots that `processRecords` selects at the clock `now`, as pairs of page and slot. -/
def selectedSlots (cfg : TableConfig) (s : Processes α) (now : ℕ) : List (Bytes × ℕ) :=
  (recordsToScan s.shared.index s.globalExpireAt now cfg.tableMaxPages 0).flatMap fun idx =>
    (List.range ((s.shared.index idx).used cfg)).map ((s.shared.index idx).pageName, ·)

theorem recordsToScan_sorted (index : ℕ → TablePageIndexElement) (g now n k : ℕ) :
    (recordsToScan index g now n k).Pairwise (· < ·) := by
  induction n generalizing k with
  | zero => exact List.Pairwise.nil
  | succ n ih =>
    unfold recordsToScan
    split_ifs
    · exact List.Pairwise.nil
    · refine List.Pairwise.cons (fun j hj => ?_) (ih (k + 1))
      have := (mem_recordsToScan n (k + 1) hj).1
      omega
    · exact ih (k + 1)

/-- A live entry is selected, the entries before it being used. -/
theorem mem_recordsToScan_of_live {index : ℕ → TablePageIndexElement} {g now idx : ℕ} (n k : ℕ) (hk : k ≤ idx)
    (hlt : idx < k + n) (hused : ∀ j, k ≤ j → j ≤ idx → 0 < (index j).expireAt) (hnow : now < (index idx).expireAt)
    (hg : g < (index idx).expireAt) : idx ∈ recordsToScan index g now n k := by
  induction n generalizing k with
  | zero => omega
  | succ n ih =>
    have hfirst := hused k le_rfl hk
    unfold recordsToScan
    rw [if_neg (by omega)]
    rcases Nat.eq_or_lt_of_le hk with rfl | hlater
    · rw [if_pos ⟨hnow, hg⟩]
      exact List.mem_cons_self
    · have hrest := ih (k + 1) hlater (by omega) fun j hj hji => hused j (by omega) hji
      split_ifs
      · exact List.mem_cons_of_mem k hrest
      · exact hrest

/-- Slots are selected at most once, pages being told apart by their names. -/
theorem selectedSlots_nodup {s : Processes α} (hvalid : NamesValid cfg s.shared.index) (now : ℕ) :
    (selectedSlots cfg s now).Nodup := by
  unfold selectedSlots
  rw [List.nodup_flatMap]
  refine ⟨fun idx _ => List.Nodup.map (fun _ _ h => (Prod.mk.inj h).2) List.nodup_range, ?_⟩
  apply (recordsToScan_sorted ..).imp_of_mem
  intro i j hi hj hij
  obtain ⟨-, hilt, hilive, -⟩ := mem_recordsToScan _ _ hi
  obtain ⟨-, hjlt, hjlive, -⟩ := mem_recordsToScan _ _ hj
  rw [Function.onFun, List.disjoint_left]
  intro slot hslot hslot'
  obtain ⟨x, -, rfl⟩ := List.mem_map.1 hslot
  obtain ⟨y, -, heq⟩ := List.mem_map.1 hslot'
  have hname := (Prod.mk.inj heq).1
  rw [hvalid i (by omega) (by omega), hvalid j (by omega) (by omega)] at hname
  have := pageName_injective hname
  omega

/-- The slots lie in the page and below those that are free. -/
def Held (cfg : TableConfig) (idx stop : ℕ) (index : ℕ → TablePageIndexElement) : Prop :=
  stop + (index idx).pageElementsAvailable ≤ cfg.maxElementsInPage

/-- The entry expires no earlier than the record, and the slots of the record stay handed out. -/
structure Holds (cfg : TableConfig) (idx stop expire : ℕ) (index : ℕ → TablePageIndexElement) : Prop where
  expire_le : expire ≤ (index idx).expireAt
  held : Held cfg idx stop index

/-- **The slots of a live record are selected, each once.** -/
theorem live_selected {s : Processes α} {idx start count expire now i : ℕ} (hidx : idx < cfg.tableMaxPages)
    (hb : Bounded cfg s.shared.index) (hp : Packed cfg s.shared.index)
    (h : Holds cfg idx (start + count) expire s.shared.index) (hnow : now < expire)
    (hg : s.globalExpireAt < expire) (hi : i < count) :
    (selectedSlots cfg s now).count (cfg.pageName idx, start + i) = 1 := by
  have hlive := h.expire_le
  have hused : 0 < (s.shared.index idx).expireAt := by omega
  apply List.count_eq_one_of_mem (selectedSlots_nodup hp.valid now)
  apply List.mem_flatMap.2
  refine ⟨idx, ?_, ?_⟩
  · apply mem_recordsToScan_of_live _ _ (Nat.zero_le idx) (by omega) _ (by omega) (by omega)
    intro j _ hj
    rcases Nat.eq_or_lt_of_le hj with rfl | hlt
    · exact hused
    · exact hp.used j idx hlt hidx hused
  · have hroom := used_add (hb idx hidx hused)
    have hheld := h.held
    unfold Held at hheld
    rw [List.mem_map]
    refine ⟨start + i, ?_, by rw [hp.valid idx hidx hused]⟩
    rw [List.mem_range]
    omega

section Runs

variable [Inhabited α] {s : Processes α} {a : Action α}

/-! ## Steps that hand out slots, and steps that reset an entry -/

/-- The step is the locked section of an `addRecord` that hands out `count` slots. -/
def Hands (cfg : TableConfig) (s : Processes α) (a : Action α) (r : Reservation) (count lifetime : ℕ) : Prop :=
  ∃ pid op records, a.actor = .process pid op ∧ (s.processes pid).pc = .locked (.addRecord records lifetime) ∧
    records.length = count ∧ ((s.view pid).reserve cfg a.now a.memLow count lifetime).1 = .ok r

/-- The step takes the entry for new records as expired, new or oldest, or clears it. -/
def Resets (cfg : TableConfig) (idx : ℕ) (s : Processes α) (a : Action α) : Prop :=
  (∃ r count lifetime, Hands cfg s a r count lifetime ∧ r.idx = idx ∧ r.type ≠ .current) ∨
    0 < (s.shared.index idx).expireAt ∧ ((s.step cfg a).shared.index idx).expireAt = 0

/-- The step takes the entry as the oldest. -/
def Evicts (cfg : TableConfig) (idx : ℕ) (s : Processes α) (a : Action α) : Prop :=
  ∃ r count lifetime, Hands cfg s a r count lifetime ∧ r.idx = idx ∧ r.type = .oldest

/-- The step is the locked section of a `cleanup`. -/
def Cleans (s : Processes α) (a : Action α) : Prop :=
  ∃ pid op, a.actor = .process pid op ∧ (s.processes pid).pc = .locked .cleanup

/-- The step is the locked section of a `processRecords`. -/
def Selects (s : Processes α) (a : Action α) : Prop :=
  ∃ pid op, a.actor = .process pid op ∧ (s.processes pid).pc = .locked .processRecords

/-- A step hands out slots as `reserve` does. -/
theorem Hands.reserves {r : Reservation} {count lifetime : ℕ} (h : Hands cfg s a r count lifetime)
    (hb : Bounded cfg s.shared.index) :
    ∃ pid v', Reserves cfg (s.view pid) v' a.now a.memLow count lifetime r ∧
      (s.step cfg a).shared = v'.shared ∧ (s.step cfg a).globalExpireAt = v'.globalExpireAt := by
  obtain ⟨pid, op, records, hactor, hpc, rfl, hr⟩ := h
  obtain ⟨err, hres, -⟩ | ⟨r', v', hres, hv⟩ :=
    reserve_cases (s.view pid) hb a.now records.length lifetime a.memLow
  · rw [hres] at hr
    cases hr
  · rw [hres] at hr
    cases hr
    refine ⟨pid, v', hv, ?_, ?_⟩ <;>
      simp only [Processes.step, Processes.exec, hactor, hpc, processStep, lockedStep, hres, Processes.put]

/-! ## Slots on a page -/

/-- Slots stay handed out until the entry is reset. -/
theorem held_step {idx stop : ℕ} (hb : Bounded cfg s.shared.index) (h : Held cfg idx stop s.shared.index)
    (hreset : ¬ Resets cfg idx s a) : Held cfg idx stop (s.step cfg a).shared.index := by
  -- an entry in the cleared range is reset
  have hcleared (v' : View α) (lo hi : ℕ) (hused : ∀ j < hi, 0 < (s.shared.index j).expireAt)
      (hclears : ∀ j, v'.shared.index j = if lo ≤ j ∧ j < hi then .clearFull cfg else s.shared.index j)
      (hstep : (s.step cfg a).shared = v'.shared) : Held cfg idx stop v'.shared.index := by
    unfold Held
    rw [hclears]
    by_cases hin : lo ≤ idx ∧ idx < hi
    · refine absurd (.inr ⟨hused idx hin.2, ?_⟩) hreset
      rw [hstep, hclears, if_pos hin]
      rfl
    · rw [if_neg hin]
      exact h
  apply index_step hb h
  · intro pid v' b e hrel hstep
    exact hcleared v' b e hrel.used hrel.clears.index_eq hstep
  · intro pid op records lifetime r v' hactor hpc hres hv
    by_cases hidx : idx = r.idx
    · subst hidx
      -- slots are added behind the old ones, or the entry starts anew
      rcases hv.outcome with hcont | hrest
      · have hroom := hv.room
        have hstart := hcont.start_eq
        have hview : (s.view pid).shared = s.shared := rfl
        rw [hview] at hstart
        unfold Held at h ⊢
        omega
      · refine absurd (.inl ⟨r, records.length, lifetime, ⟨pid, op, records, hactor, hpc, rfl, ?_⟩, rfl, ?_⟩) hreset
        · rw [hres]
        · rcases hrest.kind with ⟨ht, -⟩ | ⟨ht, -⟩ | ⟨ht, -⟩ <;> simp [ht]
    · unfold Held
      rw [hv.others idx hidx]
      exact h
  · intro pid op v' c _ _ hclean hstep
    exact hcleared v' 0 c hclean.used hclean.clears.index_eq hstep

/-! ## Regular steps -/

/-- What the runs of the claim promise of a step: no overflow, low memory only when an entry is used, and
no page that a cleanup fails to open. -/
structure Regular (cfg : TableConfig) (s : Processes α) (a : Action α) : Prop where
  overflow : ∀ r count lifetime, Hands cfg s a r count lifetime →
    a.now + cfg.lifetime lifetime + removeExpiredPagesDelaySec < 2 ^ 32
  memLow : ∀ r count lifetime, Hands cfg s a r count lifetime → a.memLow = true →
    ∃ idx < cfg.tableMaxPages, 0 < (s.shared.index idx).expireAt
  opens : Cleans s a → (s.exec cfg a).1 = none

theorem packed_init : Packed cfg (Processes.init : Processes α).shared.index :=
  ⟨fun _ _ _ _ h => absurd h (lt_irrefl 0), fun _ _ => delay_lt, fun _ _ h => absurd h (lt_irrefl 0)⟩

theorem Regular.expireTime (h : Regular cfg s a) {r : Reservation} {count lifetime : ℕ}
    (hr : Hands cfg s a r count lifetime) :
    cfg.expireTime a.now lifetime = a.now + cfg.lifetime lifetime := by
  have hlt := h.overflow r count lifetime hr
  unfold TableConfig.expireTime
  omega

/-- **Regular steps keep the order of the index.** -/
theorem packed_step (hf : Formed cfg s) (hp : Packed cfg s.shared.index) (hpos : 0 < a.now)
    (hreg : Regular cfg s a) : Packed cfg (s.step cfg a).shared.index := by
  apply index_step hf.bounded hp
  · intro pid v' b e hrel _
    exact hrel.packed hp
  · intro pid op records lifetime r v' hactor hpc hres hv
    have hr : Hands cfg s a r records.length lifetime := ⟨pid, op, records, hactor, hpc, rfl, by rw [hres]⟩
    exact hv.packed hf.names hp hpos (hreg.expireTime hr) (hreg.overflow r _ lifetime hr) (hreg.memLow r _ lifetime hr)
  · intro pid op v' c hactor hpc hclean _
    rw [hreg.opens ⟨pid, op, hactor, hpc⟩] at hclean
    exact hclean.packed hp

/-! ## A live record -/

/-- **A live record stays where it is**, as long as its page is not evicted and the table not cleaned up. -/
theorem holds_step {idx stop expire : ℕ} (hidx : idx < cfg.tableMaxPages) (hf : Formed cfg s)
    (hp : Packed cfg s.shared.index) (hnow : a.now < expire) (hglobal : s.globalExpireAt < expire)
    (hclean : ¬ Cleans s a) (hevict : ¬ Evicts cfg idx s a) (h : Holds cfg idx stop expire s.shared.index) :
    Holds cfg idx stop expire (s.step cfg a).shared.index := by
  have hlive := h.expire_le
  -- a live entry is not restarted: it is not expired, not empty and not evicted
  have hrestart {v' : View α} {pid count lifetime : ℕ} {r : Reservation}
      (hr : Hands cfg s a r count lifetime) (heq : r.idx = idx)
      (hrest : Restarts cfg (s.view pid) v' a.now lifetime a.memLow r) : False := by
    have hview : (s.view pid).shared = s.shared := rfl
    have hkind := hrest.kind
    rw [heq, hview] at hkind
    obtain ⟨-, -, hexp, -⟩ | ⟨-, -, hzero, -⟩ | ⟨ht, -⟩ := hkind
    · omega
    · omega
    · exact hevict ⟨r, count, lifetime, hr, heq, ht⟩
  have hexpire : expire ≤ ((s.step cfg a).shared.index idx).expireAt := by
    apply index_step (P := fun index => expire ≤ (index idx).expireAt) hf.bounded hlive
    · intro pid v' b e hrel _
      rw [hrel.clears.index_eq]
      by_cases hin : b ≤ idx ∧ idx < e
      · have hsmall := hp.small idx hidx
        -- a live entry is still needed by the maintenance
        have hneed : Needed (s.shared.index idx) s.globalExpireAt a.now := by
          unfold Needed
          omega
        have := hrel.needed idx hin.2 hneed
        omega
      · rw [if_neg hin]
        exact hlive
    · intro pid op records lifetime r v' hactor hpc hres hv
      by_cases heq : idx = r.idx
      · subst heq
        rcases hv.outcome with hcont | hrest
        · rw [hcont.expireAt_eq]
          exact hlive.trans (le_max_left _ _)
        · exact (hrestart ⟨pid, op, records, hactor, hpc, rfl, by rw [hres]⟩ rfl hrest).elim
      · rw [hv.others idx heq]
        exact hlive
    · intro pid op v' c hactor hpc _ _
      exact absurd ⟨pid, op, hactor, hpc⟩ hclean
  refine ⟨hexpire, held_step hf.bounded h.held ?_⟩
  rintro (⟨r, count, lifetime, hr, heq, ht⟩ | ⟨-, hzero⟩)
  · obtain ⟨pid, v', hv, -⟩ := hr.reserves hf.bounded
    rcases hv.outcome with hcont | hrest
    · exact ht hcont.type_eq
    · exact hrestart hr heq hrest
  · omega

/-! ## Runs -/

/-- The state after the steps `as`. -/
def reached (cfg : TableConfig) (as : List (Action α)) : Processes α := run (Processes.step cfg) Processes.init as

theorem formed_reached (as : List (Action α)) : Formed cfg (reached cfg as) :=
  inv_run_all (Formed cfg) (fun _ a h => h.step a) formed_init as

/-- Slots handed out on a page between two resets of its entry lie in the page and do not overlap, and those
handed out are scanned as long as the entry is not reset. -/
structure RangesDisjoint (cfg : TableConfig) (as : List (Action α)) : Prop where
  within : ∀ pre a post r count lifetime, as = pre ++ a :: post → Hands cfg (reached cfg pre) a r count lifetime →
    r.start + count ≤ cfg.maxElementsInPage
  disjoint : ∀ pre a mid b post r count lifetime r' count' lifetime', as = pre ++ a :: (mid ++ b :: post) →
    Hands cfg (reached cfg pre) a r count lifetime →
    Hands cfg (reached cfg (pre ++ a :: mid)) b r' count' lifetime' → r'.idx = r.idx →
    Always (Processes.step cfg) (fun s a => ¬ Resets cfg r.idx s a) (reached cfg (pre ++ [a])) (mid ++ [b]) →
    r.start + count ≤ r'.start
  scanned : ∀ pre a mid post r count lifetime, as = pre ++ a :: (mid ++ post) →
    Hands cfg (reached cfg pre) a r count lifetime →
    Always (Processes.step cfg) (fun s a => ¬ Resets cfg r.idx s a) (reached cfg (pre ++ [a])) mid →
    r.start + count ≤ ((reached cfg (pre ++ a :: mid)).shared.index r.idx).used cfg

theorem hands_held {pre : List (Action α)} {a : Action α} {r : Reservation} {count lifetime : ℕ}
    (h : Hands cfg (reached cfg pre) a r count lifetime) :
    r.idx < cfg.tableMaxPages ∧ r.start + count ≤ cfg.maxElementsInPage ∧
      Held cfg r.idx (r.start + count) (reached cfg (pre ++ [a])).shared.index := by
  obtain ⟨pid, v', hv, hsh, -⟩ := h.reserves (formed_reached pre).bounded
  have hstep : (reached cfg (pre ++ [a])).shared = v'.shared := by
    rw [reached, run_append]
    exact hsh
  have hroom := hv.room
  refine ⟨hv.idx_lt, by omega, ?_⟩
  unfold Held
  rw [hstep]
  omega

/-- Slots stay handed out over a run without a reset. -/
theorem held_run {idx stop : ℕ} {mid : List (Action α)} (hf : Formed cfg s) (h : Held cfg idx stop s.shared.index)
    (hreset : Always (Processes.step cfg) (fun s a => ¬ Resets cfg idx s a) s mid) :
    Held cfg idx stop (run (Processes.step cfg) s mid).shared.index := by
  have hinv := inv_run (fun s => Formed cfg s ∧ Held cfg idx stop s.shared.index)
    (fun s a h hreset => ⟨h.1.step a, held_step h.1.bounded h.2 hreset⟩) ⟨hf, h⟩ hreset
  exact hinv.2

theorem reached_append (pre : List (Action α)) (a : Action α) (mid : List (Action α)) :
    run (Processes.step cfg) (reached cfg (pre ++ [a])) mid = reached cfg (pre ++ a :: mid) := by
  simp [reached]

/-- The slots of a step stay handed out as long as its entry is not reset. -/
theorem hands_held_run {pre mid : List (Action α)} {a : Action α} {r : Reservation} {count lifetime : ℕ}
    (h : Hands cfg (reached cfg pre) a r count lifetime)
    (hreset : Always (Processes.step cfg) (fun s a => ¬ Resets cfg r.idx s a) (reached cfg (pre ++ [a])) mid) :
    Held cfg r.idx (r.start + count) (reached cfg (pre ++ a :: mid)).shared.index := by
  rw [← reached_append]
  exact held_run (formed_reached _) (hands_held h).2.2 hreset

/-- **Slots handed out between two resets do not overlap.** -/
theorem rangesDisjoint (as : List (Action α)) : RangesDisjoint cfg as := by
  constructor
  · intro pre a post r count lifetime _ h
    exact (hands_held h).2.1
  · intro pre a mid b post r count lifetime r' count' lifetime' _ ha hb hidx hreset
    obtain ⟨hmid, hlast, -⟩ := (always_append _ mid [b]).1 hreset
    have hheld := hands_held_run ha hmid
    rw [reached_append] at hlast
    obtain ⟨pid, v', hv, -⟩ := hb.reserves (formed_reached _).bounded
    rcases hv.outcome with hcont | hrest
    · have hstart : r'.start + ((reached cfg (pre ++ a :: mid)).shared.index r'.idx).pageElementsAvailable =
          cfg.maxElementsInPage := hcont.start_eq
      rw [hidx] at hstart
      unfold Held at hheld
      omega
    · refine absurd (.inl ⟨r', count', lifetime', hb, hidx, ?_⟩) hlast
      rcases hrest.kind with ⟨ht, -⟩ | ⟨ht, -⟩ | ⟨ht, -⟩ <;> simp [ht]
  · intro pre a mid post r count lifetime _ ha hreset
    have hheld := hands_held_run ha hreset
    unfold Held at hheld
    have hroom : ((reached cfg (pre ++ a :: mid)).shared.index r.idx).used cfg +
        ((reached cfg (pre ++ a :: mid)).shared.index r.idx).pageElementsAvailable = cfg.maxElementsInPage :=
      used_add (Nat.le_trans (Nat.le_add_left _ _) hheld)
    omega

/-- The slots that a step hands out at the clock `t` with the lifetime `L` are selected, each once, by every
`processRecords` before `t + L`, unless the table was cleaned up, the page evicted, or `global_expire_at` has
reached `t + L`. -/
def LiveSelected (cfg : TableConfig) (as : List (Action α)) : Prop :=
  ∀ pre a mid b post r count lifetime, as = pre ++ a :: (mid ++ b :: post) →
    Hands cfg (reached cfg pre) a r count lifetime → Selects (reached cfg (pre ++ a :: mid)) b →
    b.now < a.now + cfg.lifetime lifetime →
    Always (Processes.step cfg) (fun s a => ¬ Cleans s a ∧ ¬ Evicts cfg r.idx s a) (reached cfg (pre ++ [a])) mid →
    (reached cfg (pre ++ a :: mid)).globalExpireAt < a.now + cfg.lifetime lifetime →
    ∀ i < count,
      (selectedSlots cfg (reached cfg (pre ++ a :: mid)) b.now).count (cfg.pageName r.idx, r.start + i) = 1

/-- The index of a regular run is packed. -/
theorem packed_run {as : List (Action α)} (hf : Formed cfg s) (hp : Packed cfg s.shared.index)
    (hpos : ∀ a ∈ as, 0 < a.now) (hreg : Always (Processes.step cfg) (Regular cfg) s as) :
    Packed cfg (run (Processes.step cfg) s as).shared.index := by
  have hinv := inv_run (fun s => Formed cfg s ∧ Packed cfg s.shared.index)
    (fun s a h hok => ⟨h.1.step a, packed_step h.1 h.2 hok.1 hok.2⟩) ⟨hf, hp⟩
    ((always_of_forall hpos s).and hreg)
  exact hinv.2

/-- The slots handed out by a regular step are held until the record expires. -/
theorem hands_holds {pre : List (Action α)} {a : Action α} {r : Reservation} {count lifetime : ℕ}
    (h : Hands cfg (reached cfg pre) a r count lifetime) (hreg : Regular cfg (reached cfg pre) a) :
    Holds cfg r.idx (r.start + count) (a.now + cfg.lifetime lifetime) (reached cfg (pre ++ [a])).shared.index := by
  refine ⟨?_, (hands_held h).2.2⟩
  have hexp := hreg.expireTime h
  obtain ⟨pid, v', hv, hsh, -⟩ := h.reserves (formed_reached pre).bounded
  have hstep : (reached cfg (pre ++ [a])).shared = v'.shared := by
    rw [reached, run_append]
    exact hsh
  rw [hstep, ← hexp]
  rcases hv.outcome with hcont | hrest
  · rw [hcont.expireAt_eq]
    exact le_max_right _ _
  · exact hrest.expireAt_eq.ge

/-- The record stays where it is over a regular run that ends before it expires. -/
theorem holds_run {idx stop expire : ℕ} {mid : List (Action α)} (hidx : idx < cfg.tableMaxPages)
    (hf : Formed cfg s) (hp : Packed cfg s.shared.index) (h : Holds cfg idx stop expire s.shared.index)
    (hnow : ∀ a ∈ mid, 0 < a.now ∧ a.now < expire)
    (hglobal : (run (Processes.step cfg) s mid).globalExpireAt < expire)
    (hreg : Always (Processes.step cfg) (Regular cfg) s mid)
    (hkeep : Always (Processes.step cfg) (fun s a => ¬ Cleans s a ∧ ¬ Evicts cfg idx s a) s mid) :
    Holds cfg idx stop expire (run (Processes.step cfg) s mid).shared.index := by
  have hbelow := always_lt_of_mono (f := Processes.globalExpireAt) (fun s a => globalExpireAt_mono s a) hglobal
  have hinv := inv_run (fun s => Formed cfg s ∧ Packed cfg s.shared.index ∧ Holds cfg idx stop expire s.shared.index)
    (fun s a ⟨hf, hp, h⟩ ⟨⟨hnow, hbelow⟩, hreg, hclean, hevict⟩ =>
      ⟨hf.step a, packed_step hf hp hnow.1 hreg, holds_step hidx hf hp hnow.2 hbelow hclean hevict h⟩)
    ⟨hf, hp, h⟩ (((always_of_forall hnow s).and hbelow).and (hreg.and hkeep))
  exact hinv.2.2

theorem liveSelected {as : List (Action α)} (hclock : (as.map Action.now).Pairwise (· ≤ ·))
    (hpos : ∀ a ∈ as, 0 < a.now) (hreg : Always (Processes.step cfg) (Regular cfg) Processes.init as) :
    LiveSelected cfg as := by
  intro pre a mid b post r count lifetime has ha _ hnow hkeep hglobal i hi
  subst has
  have hsplit : pre ++ a :: (mid ++ b :: post) = pre ++ [a] ++ mid ++ b :: post := by simp
  rw [hsplit] at hreg hpos
  obtain ⟨hregBefore, -⟩ := (always_append _ _ _).1 hreg
  obtain ⟨hregFirst, hregMid⟩ := (always_append _ _ _).1 hregBefore
  have hregA : Regular cfg (reached cfg pre) a := ((always_append _ pre [a]).1 hregFirst).2.1
  have hpacked := packed_run formed_init packed_init (fun x hx => hpos x (List.mem_append_left _ (List.mem_append_left _ hx))) hregFirst
  have hidx := (hands_held ha).1
  -- the clock of the step `b` bounds those of the steps before it
  have hmid : ∀ x ∈ mid, 0 < x.now ∧ x.now < a.now + cfg.lifetime lifetime := by
    intro x hx
    refine ⟨hpos x (by simp [hx]), ?_⟩
    rw [hsplit, List.map_append, List.pairwise_append] at hclock
    have := hclock.2.2 x.now (by simp; exact .inr (.inr ⟨x, hx, rfl⟩)) b.now (by simp)
    omega
  have hholds := holds_run hidx (formed_reached _) hpacked (hands_holds ha hregA) hmid
    (by rw [reached_append]; exact hglobal) hregMid hkeep
  have hpackedMid := packed_run formed_init packed_init (fun x hx => hpos x (List.mem_append_left _ hx)) hregBefore
  have hend : run (Processes.step cfg) Processes.init (pre ++ [a] ++ mid) = reached cfg (pre ++ a :: mid) := by
    simp [reached]
  rw [hend] at hpackedMid
  rw [reached_append] at hholds
  exact live_selected hidx (formed_reached _).bounded hpackedMid hholds hnow hglobal hi

/-- **No live record is lost or delivered twice.** -/
theorem liveRecords (cfg : TableConfig) (as : List (Action α)) (hclock : (as.map Action.now).Pairwise (· ≤ ·))
    (hpos : ∀ a ∈ as, 0 < a.now) (hreg : Always (Processes.step cfg) (Regular cfg) Processes.init as) :
    RangesDisjoint cfg as ∧ LiveSelected cfg as :=
  ⟨rangesDisjoint as, liveSelected hclock hpos hreg⟩

theorem regular_of_pc {pid : ℕ} {op : Op α} (hactor : a.actor = .process pid op)
    (hpc : match (s.processes pid).pc with
      | .locked (.addRecord _ lifetime) =>
        a.now + cfg.lifetime lifetime + removeExpiredPagesDelaySec < 2 ^ 32 ∧ a.memLow = false
      | .locked .cleanup => False
      | _ => True) : Regular cfg s a := by
  have hhands {r : Reservation} {count lifetime : ℕ} (h : Hands cfg s a r count lifetime) :
      a.now + cfg.lifetime lifetime + removeExpiredPagesDelaySec < 2 ^ 32 ∧ a.memLow = false := by
    obtain ⟨pid', op', records, hactor', hlocked, -⟩ := h
    rw [hactor] at hactor'
    cases hactor'
    rw [hlocked] at hpc
    exact hpc
  refine ⟨fun r count lifetime h => (hhands h).1, fun r count lifetime h hmem => ?_, ?_⟩
  · rw [(hhands h).2] at hmem
    cases hmem
  · rintro ⟨pid', op', hactor', hlocked⟩
    rw [hactor] at hactor'
    cases hactor'
    rw [hlocked] at hpc
    exact hpc.elim

end Runs

/-- One process adds a record at the clock 100, another selects at 101. -/
def addThenSelect : List (Action UInt8) :=
  List.replicate 4 (act 0 100 false (.addRecord [7] 0)) ++ List.replicate 4 (act 1 101 false .processRecords)

theorem addThenSelect_regular :
    Always (Processes.step smallTable) (Regular smallTable) Processes.init addThenSelect := by
  refine ⟨?_, ?_, ?_, ?_, ?_, ?_, ?_, ?_, trivial⟩
  · exact regular_of_pc rfl trivial
  · exact regular_of_pc rfl trivial
  · exact regular_of_pc rfl trivial
  · exact regular_of_pc rfl ⟨by decide, rfl⟩
  · exact regular_of_pc rfl trivial
  · exact regular_of_pc rfl trivial
  · exact regular_of_pc rfl trivial
  · exact regular_of_pc rfl trivial

theorem liveRecords_addThenSelect :
    RangesDisjoint smallTable addThenSelect ∧ LiveSelected smallTable addThenSelect ∧
      selectedSlots smallTable (reached smallTable (addThenSelect.take 7)) 101 = [(str "T:0", 0)] := by
  have h := liveRecords smallTable addThenSelect (by decide) (by decide) addThenSelect_regular
  exact ⟨h.1, h.2, by decide +kernel⟩

end DealsServer
