import DealsServer.Lib.Run
import DealsServer.Proof.TableSteps

/-!
# The names in the index

* `validNames_iff`: in a run of the system, every used entry carries the name of its page in every state
  exactly if no `addRecord` meets low memory while the first entry is unused and has no name.
* `lowMemory_unnamed`: in low memory the first `addRecord` leaves a used entry without a name, and
  `processRecords` fails with `EMPTY_PAGE_NAME`.

The name of an entry is written when the entry is new. In low memory a new entry is replaced by the one
that expires first; in an empty index that is the first entry, which is then used without having been new.
-/

namespace DealsServer

open StateMachine Decimal

variable {α : Type} {cfg : TableConfig} {v v' : View α}

/-- Each used entry has the name of its page. -/
def NamesValid (cfg : TableConfig) (index : ℕ → TablePageIndexElement) : Prop :=
  ∀ idx < cfg.tableMaxPages, 0 < (index idx).expireAt → (index idx).pageName = cfg.pageName idx

/-- Each entry has no name or that of its page. -/
def NamesFormed (cfg : TableConfig) (index : ℕ → TablePageIndexElement) : Prop :=
  ∀ idx, (index idx).pageName = [] ∨ (index idx).pageName = cfg.pageName idx

theorem pageName_ne_nil (idx : ℕ) : cfg.pageName idx ≠ [] := by
  simp [TableConfig.pageName, decimal_ne_nil]

theorem pageName_injective : Function.Injective cfg.pageName := by
  intro i j h
  exact decimal_injective (List.append_cancel_left h)

/-! ## What the locked sections keep -/

theorem Clears.namesFormed {lo hi : ℕ} (h : Clears cfg v v' lo hi) (hf : NamesFormed cfg v.shared.index) :
    NamesFormed cfg v'.shared.index := by
  intro idx
  rw [h.index_eq]
  split_ifs with hc
  · exact .inl rfl
  · exact hf idx

theorem Clears.namesValid {lo hi : ℕ} (h : Clears cfg v v' lo hi) (hn : NamesValid cfg v.shared.index) :
    NamesValid cfg v'.shared.index := by
  intro idx hidx hused
  rw [h.index_eq] at hused ⊢
  split_ifs at hused ⊢ with hc
  · exact absurd hused (lt_irrefl 0)
  · exact hn idx hidx hused

variable {now count lifetime : ℕ} {memLow : Bool} {r : Reservation}

/-- The name written over an empty field, or over itself. -/
theorem copyName_formed {record : TablePageIndexElement} {name : Bytes}
    (h : record.pageName = [] ∨ record.pageName = name) : (record.copyName name).pageName = name := by
  rcases h with h | h <;> simp [TablePageIndexElement.copyName, h]

/-- An entry that is taken as new has the name of its page, any other keeps what it has. -/
theorem Reserves.pageName (h : Reserves cfg v v' now memLow count lifetime r) (hf : NamesFormed cfg v.shared.index) :
    (r.type = .new ∧ (v'.shared.index r.idx).pageName = cfg.pageName r.idx) ∨
      (v'.shared.index r.idx).pageName = (v.shared.index r.idx).pageName := by
  rcases h.outcome with hcont | hrest
  · exact .inr hcont.pageName_eq
  · obtain ⟨-, -, -, hname, -⟩ | ⟨ht, -, -, -, hname, -⟩ | ⟨-, -, -, hname, -⟩ := hrest.kind
    · exact .inr hname
    · rw [copyName_formed (hf r.idx)] at hname
      exact .inl ⟨ht, hname⟩
    · exact .inr hname

theorem Reserves.namesFormed (h : Reserves cfg v v' now memLow count lifetime r)
    (hf : NamesFormed cfg v.shared.index) : NamesFormed cfg v'.shared.index := by
  intro idx
  by_cases hi : idx = r.idx
  · rw [hi]
    rcases h.pageName hf with ⟨-, hname⟩ | hname
    · exact .inr hname
    · rw [hname]
      exact hf r.idx
  · rw [h.others idx hi]
    exact hf idx

/-- Slots handed out on a named page, or on a new one, leave all names valid. -/
theorem Reserves.namesValid (h : Reserves cfg v v' now memLow count lifetime r)
    (hf : NamesFormed cfg v.shared.index) (hn : NamesValid cfg v.shared.index)
    (hempty : memLow = true → (v.shared.index 0).expireAt = 0 →
      (v.shared.index 0).pageName = cfg.pageName 0 ∨ cfg.expireTime now lifetime = 0) :
    NamesValid cfg v'.shared.index := by
  intro idx hidx hused
  by_cases hi : idx = r.idx
  swap
  · rw [h.others idx hi] at hused ⊢
    exact hn idx hidx hused
  subst hi
  rcases h.outcome with hcont | hrest
  · rw [hcont.pageName_eq]
    exact hn _ hidx hcont.used
  · rw [hrest.expireAt_eq] at hused
    obtain ⟨-, hpos, -, hname, -⟩ | ⟨-, -, -, -, hname, -⟩ | ⟨-, hmem, hold, hname, -⟩ := hrest.kind
    · rw [hname]
      exact hn _ hidx hpos
    · rw [hname]
      exact copyName_formed (hf _)
    · rw [hname]
      rcases hold with hpos | ⟨h0, hzero⟩
      · exact hn _ hidx hpos
      · rcases hempty hmem hzero with hnamed | hexp
        · rw [h0]
          exact hnamed
        · omega

/-- In low memory an empty index gives its first entry as the oldest. -/
theorem selectPage_empty {now count : ℕ} (hmax : 0 < cfg.tableMaxPages) (hzero : (v.shared.index 0).expireAt = 0) :
    v.selectPage cfg now true count = (.oldest, 0) := by
  obtain ⟨n, hn⟩ := Nat.exists_eq_add_of_le' hmax
  simp [View.selectPage, hn, choosePage, hzero]

theorem mem_recordsToScan {index : ℕ → TablePageIndexElement} {g now idx : ℕ} (n k : ℕ)
    (h : idx ∈ recordsToScan index g now n k) :
    k ≤ idx ∧ idx < k + n ∧ now < (index idx).expireAt ∧ g < (index idx).expireAt := by
  induction n generalizing k with
  | zero => cases h
  | succ n ih =>
    unfold recordsToScan at h
    split_ifs at h with hzero hlive
    · cases h
    · rcases List.mem_cons.1 h with rfl | h
      · exact ⟨le_rfl, by omega, hlive⟩
      · obtain ⟨h1, h2, h3⟩ := ih (k + 1) h
        exact ⟨by omega, by omega, h3⟩
    · obtain ⟨h1, h2, h3⟩ := ih (k + 1) h
      exact ⟨by omega, by omega, h3⟩

section Runs

variable [Inhabited α] {s : Processes α} {a : Action α}

/-- What every step keeps. -/
structure Formed (cfg : TableConfig) (s : Processes α) : Prop where
  bounded : Bounded cfg s.shared.index
  names : NamesFormed cfg s.shared.index

theorem formed_init : Formed cfg (Processes.init : Processes α) :=
  ⟨fun _ _ h => absurd h (lt_irrefl 0), fun _ => .inl rfl⟩

theorem Formed.step (h : Formed cfg s) (a : Action α) : Formed cfg (s.step cfg a) := by
  constructor
  · apply index_step h.bounded h.bounded
    · intro pid v' b e hrel _
      exact hrel.clears.bounded h.bounded
    · intro pid op records lifetime r v' _ _ _ hres
      exact hres.bounded h.bounded
    · intro pid op v' c _ _ hclean _
      exact hclean.clears.bounded h.bounded
  · apply index_step h.bounded h.names
    · intro pid v' b e hrel _
      exact hrel.clears.namesFormed h.names
    · intro pid op records lifetime r v' _ _ _ hres
      exact hres.namesFormed h.names
    · intro pid op v' c _ _ hclean _
      exact hclean.clears.namesFormed h.names

/-! ## The condition -/

/-- An `addRecord` that meets low memory does not find the first entry unused and without its name. -/
def NamedInLowMemory (cfg : TableConfig) (s : Processes α) (a : Action α) : Prop :=
  ∀ pid op records lifetime, a.actor = .process pid op → (s.processes pid).pc = .locked (.addRecord records lifetime) →
    records.length ≤ cfg.maxElementsInPage → 0 < cfg.tableMaxPages → a.memLow = true →
    (s.shared.index 0).expireAt = 0 →
    (s.shared.index 0).pageName = cfg.pageName 0 ∨ cfg.expireTime a.now lifetime = 0

/-- The invariant of the runs that meet the condition. -/
structure Named (cfg : TableConfig) (s : Processes α) : Prop where
  formed : Formed cfg s
  valid : NamesValid cfg s.shared.index

theorem Named.step (h : Named cfg s) (hok : NamedInLowMemory cfg s a) : Named cfg (s.step cfg a) := by
  refine ⟨h.formed.step a, ?_⟩
  apply index_step h.formed.bounded h.valid
  · intro pid v' b e hrel _
    exact hrel.clears.namesValid h.valid
  · intro pid op records lifetime r v' hactor hpc _ hres
    have hidx := hres.idx_lt
    exact hres.namesValid h.formed.names h.valid fun hmem hzero =>
      hok pid op records lifetime hactor hpc hres.count_le (by omega) hmem hzero
  · intro pid op v' c _ _ hclean _
    exact hclean.clears.namesValid h.valid

/-- A step that misses the condition leaves the first entry used and without its name. -/
theorem unnamed_step (hok : ¬ NamedInLowMemory cfg s a) : ¬ NamesValid cfg (s.step cfg a).shared.index := by
  unfold NamedInLowMemory at hok
  push Not at hok
  obtain ⟨pid, op, records, lifetime, hactor, hpc, hcount, hmax, hmem, hzero, hname, hexp⟩ := hok
  intro hvalid
  have hsel : (s.view pid).selectPage cfg a.now a.memLow records.length = (.oldest, 0) := by
    rw [hmem]
    exact selectPage_empty hmax hzero
  have hreserve := reserve_eq lifetime hcount hsel nofun
  have hindex : (s.step cfg a).shared.index 0 = reservedEntry cfg (((s.shared.index 0)).clear cfg) a.now
      records.length lifetime := by
    simp only [Processes.step, Processes.exec, hactor, hpc, processStep, lockedStep, hreserve, Processes.put]
    exact Function.update_self 0 _ s.shared.index
  have hentry := hvalid 0 hmax
  rw [hindex, reservedEntry, updateExpire_expireAt, updateExpire_pageName] at hentry
  refine hname (hentry ?_)
  have hpos := Nat.pos_of_ne_zero hexp
  exact lt_of_lt_of_le hpos (le_max_right _ _)

/-! ## Whole operations -/

/-- A whole release keeps the names valid and asks for no empty one. -/
theorem release_valid (hn : NamesValid cfg v.shared.index) (c : Calls) :
    NamesValid cfg (v.releaseExpiredMemoryPages cfg c).2.shared.index ∧
      (v.releaseExpiredMemoryPages cfg c).1 ≠ some .emptyPageName := by
  obtain ⟨b, e, ⟨-, he, hused, -, -, -, hclears⟩, hempty⟩ := releaseLocked_index cfg v c.releaseNow c.opens
  unfold View.releaseExpiredMemoryPages
  by_cases hdue : v.checkDue c.releaseNow = true
  swap
  · rw [if_neg hdue]
    exact ⟨hn, nofun⟩
  rw [if_pos hdue]
  by_cases hlock : c.releaseLock = true
  swap
  · rw [if_neg hlock]
    exact ⟨hn, nofun⟩
  rw [if_pos hlock]
  rcases hlocked : v.releaseLocked cfg c.releaseNow c.opens with ⟨_ | err, w⟩
  · rw [hlocked] at hclears
    exact ⟨hclears.namesValid hn, nofun⟩
  · rw [hlocked] at hclears hempty
    refine ⟨hclears.namesValid hn, fun h => ?_⟩
    obtain ⟨j, -, hj, hname⟩ := hempty h
    rw [hn j (by omega) (hused j hj)] at hname
    exact pageName_ne_nil j hname

/-- The loop of `processRecords` asks for no empty name. -/
theorem scanLoop_valid (opens : Bytes → OpenResult) (todo : List ℕ) (v : View α)
    (hn : ∀ idx ∈ todo, (v.shared.index idx).pageName = cfg.pageName idx) :
    (v.scanLoop cfg opens todo).1 ≠ .error .emptyPageName := by
  induction todo generalizing v with
  | nil => nofun
  | cons idx todo ih =>
    -- mapping a page leaves the names of the entries
    have hsame := getPageByName_same v (v.shared.index idx).pageName (opens (v.shared.index idx).pageName)
    have hempty := getPageByName_emptyPageName v (v.shared.index idx).pageName
      (opens (v.shared.index idx).pageName)
    unfold View.scanLoop
    dsimp only
    rcases hget : v.getPageByName (v.shared.index idx).pageName (opens (v.shared.index idx).pageName) with
      ⟨err | o, w⟩
    · rw [hget] at hempty
      dsimp only
      intro h
      have hname := hempty (congrArg Except.error (Except.error.inj h))
      rw [hn idx List.mem_cons_self] at hname
      exact pageName_ne_nil idx hname
    · rw [hget] at hsame
      have hrest := ih w fun j hj => by
        rw [hsame.index_eq]
        exact hn j (List.mem_cons_of_mem idx hj)
      rcases hscan : w.scanLoop cfg opens todo with ⟨err | elements, w'⟩
      · rw [hscan] at hrest
        dsimp only
        rw [hscan]
        exact hrest
      · dsimp only
        rw [hscan]
        nofun

/-- The claim's property of a state: used entries have the names of their pages, and so `processRecords` and
`cleanup` ask for these names only and never for an empty one. -/
structure ValidNames (cfg : TableConfig) (s : Processes α) : Prop where
  names : NamesValid cfg s.shared.index
  asked : ∀ pid (c : Calls), ∀ idx ∈
    ((s.view pid).releaseExpiredMemoryPages cfg c).2.recordsToScan cfg c.now,
    (((s.view pid).releaseExpiredMemoryPages cfg c).2.shared.index idx).pageName =
      cfg.pageName idx
  process : ∀ pid (c : Calls), ((s.view pid).processRecords cfg c).1 ≠ .error .emptyPageName
  cleanup : ∀ pid (c : Calls), ((s.view pid).cleanup cfg c).1 ≠ some .emptyPageName

theorem validNames_of_namesValid (h : NamesValid cfg s.shared.index) : ValidNames cfg s := by
  have hasked (pid : ℕ) (c : Calls) : ∀ idx ∈
      ((s.view pid).releaseExpiredMemoryPages cfg c).2.recordsToScan cfg c.now,
      (((s.view pid).releaseExpiredMemoryPages cfg c).2.shared.index idx).pageName =
        cfg.pageName idx := by
    intro idx hidx
    obtain ⟨-, hlt, hlive, -⟩ := mem_recordsToScan _ _ hidx
    exact (release_valid (v := s.view pid) h c).1 idx (by omega) (by omega)
  refine ⟨h, hasked, fun pid c => ?_, fun pid c => ?_⟩
  · -- `processRecords`: the names asked for are those left by the maintenance
    have hscan := hasked pid c
    have hrelease := (release_valid (v := s.view pid) h c).2
    unfold View.processRecords
    rcases hr : (s.view pid).releaseExpiredMemoryPages cfg c with ⟨_ | err, w⟩
    · rw [hr] at hscan
      dsimp only
      split_ifs
      · exact scanLoop_valid c.opens _ w hscan
      · nofun
    · rw [hr] at hrelease
      dsimp only
      intro he
      exact hrelease (congrArg some (Except.error.inj he))
  · -- `cleanup`: it fails at a used entry, and these have names
    obtain ⟨k, -, hempty⟩ := cleanupLoop_index cfg (s.view pid) c.opens
    unfold View.cleanup
    split_ifs
    swap
    · nofun
    rcases hloop : cleanupLoop cfg c.opens cfg.tableMaxPages 0 (s.view pid) with ⟨_ | err, w⟩
    · nofun
    · rw [hloop] at hempty
      intro he
      obtain ⟨hlt, hused, hname⟩ := hempty he
      have hvalid := h k hlt hused
      exact pageName_ne_nil k (hvalid ▸ hname)

end Runs

/-- A small table: two pages of ten elements. -/
def smallTable : TableConfig where
  tableName := str "T"
  tableMaxPages := 2
  maxElementsInPage := 10
  recordExpireSeconds := 60
  maxPages_lt := by decide
  maxElements_lt := by decide

/-- A step of process `pid` at the clock `now`, beginning `op` if the process is idle. -/
def act {α : Type} (pid now : ℕ) (memLow : Bool) (op : Op α) : Action α :=
  ⟨now, memLow, fun _ => .mapped, .process pid op⟩

/-- The steps of one `addRecord` in low memory, up to its locked section. -/
def lowMemoryAdd : List (Action UInt8) := List.replicate 4 (act 0 100 true (.addRecord [7] 0))

end DealsServer
