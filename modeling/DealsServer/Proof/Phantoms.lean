import DealsServer.Proof.ReadYourWrites

/-!
# Elements of earlier use

* `noPhantoms`: when all processes see the same pages, `processRecords` reads an element that was copied into its
  slot since the entry was last reset, unless the slot is reserved and not copied.
* `early_read`: a slot is read that is reserved and not copied.
-/

namespace DealsServer

open StateMachine

variable {α : Type} [Inhabited α] {cfg : TableConfig} {v : View α} {s : Processes α} {a : Action α}

/-! ## Slots of an entry -/

/-- The slot is among those of the reservation. -/
def Reservation.Covers (r : Reservation) (count idx i : ℕ) : Prop := r.idx = idx ∧ r.start ≤ i ∧ i < r.start + count

/-- An `addRecord` has reserved the slot and stands before its copy. -/
def InFlight (s : Processes α) (idx i : ℕ) : Prop :=
  ∃ pid r records, (s.processes pid).pc.pending = some (r, records) ∧ r.Covers records.length idx i

/-- Since the entry was last reset, an `addRecord` that had reserved the slot has failed to open its page. -/
def Abandoned (cfg : TableConfig) (as : List (Action α)) (idx i : ℕ) : Prop :=
  Since (Processes.step cfg) (fun s a => ∃ r records, Abandons cfg s a r records ∧ r.Covers records.length idx i)
    (Resets cfg idx) Processes.init as

/-- Since the entry was last reset, an `addRecord` has copied the element to the slot. -/
def Written (cfg : TableConfig) (as : List (Action α)) (idx i : ℕ) (e : α) : Prop :=
  Since (Processes.step cfg) (fun s a => ∃ o r records, Copies s a o r records ∧ r.idx = idx ∧ r.start ≤ i ∧
    records[i - r.start]? = some e) (Resets cfg idx) Processes.init as

/-- The step reads the page of an entry in `processRecords`. -/
def Scans (s : Processes α) (a : Action α) (o idx : ℕ) : Prop :=
  ∃ pid op name todo, a.actor = .process pid op ∧ (s.processes pid).pc = .scanPage name o idx todo

/-- Each element that `processRecords` reads was copied to its slot since the entry was last reset. -/
def NoPhantoms (cfg : TableConfig) (as : List (Action α)) : Prop :=
  ∀ pre a post o idx, as = pre ++ a :: post → Scans (reached cfg pre) a o idx →
    ∀ i < ((reached cfg pre).shared.index idx).used cfg,
      Written cfg pre idx i (((reached cfg pre).shared.objects o).elements i)

/-- No slot that `processRecords` reads is reserved and not copied, or reserved by an `addRecord` that has failed. -/
def ReadsCopied (cfg : TableConfig) (as : List (Action α)) : Prop :=
  ∀ pre a post o idx, as = pre ++ a :: post → Scans (reached cfg pre) a o idx →
    ∀ i < ((reached cfg pre).shared.index idx).used cfg,
      ¬ InFlight (reached cfg pre) idx i ∧ ¬ Abandoned cfg pre idx i

/-! ## What holds of shared memory in every run -/

/-- A property of the names and objects of pages that all calls of the operating system keep. -/
structure Stable (Q : SharedMemory α → Prop) : Prop where
  openPage : ∀ sh name res, Q sh → Q (sh.openPage name res).2
  markUnlinked : ∀ sh o, Q sh → Q (sh.markUnlinked o)
  unlink : ∀ sh name, Q sh → Q (sh.unlink name)
  copy : ∀ sh o start records, Q sh → Q (sh.copy o start records)
  index : ∀ sh index check, Q sh → Q { sh with index := index, expirationCheck := check }

section Stable

variable {Q : SharedMemory α → Prop}

theorem Stable.getPageByName (hQ : Stable Q) (name : Bytes) (res : OpenResult) (h : Q v.shared) :
    Q (v.getPageByName name res).2.shared := by
  unfold View.getPageByName
  rcases v.own.localGetPageByName name with _ | o
  · have hopen := hQ.openPage v.shared name res h
    dsimp only
    rcases hres : v.shared.openPage name res with ⟨err | o, sh⟩ <;> rw [hres] at hopen <;> exact hopen
  · exact h

theorem Stable.unlinkEntry (hQ : Stable Q) (cfg : TableConfig) (idx : ℕ) (opens : Bytes → OpenResult)
    (h : Q v.shared) : Q (v.unlinkEntry cfg idx opens).2.shared := by
  have hget := hQ.getPageByName (v.shared.index idx).pageName (opens (v.shared.index idx).pageName) h
  unfold View.unlinkEntry
  dsimp only
  rcases hres : v.getPageByName (v.shared.index idx).pageName (opens (v.shared.index idx).pageName) with ⟨err | o, w⟩ <;>
    rw [hres] at hget
  · exact hget
  · exact hQ.index _ _ _ (hQ.unlink _ _ (hQ.markUnlinked _ o hget))

theorem Stable.releaseLoop (hQ : Stable Q) (cfg : TableConfig) (opens : Bytes → OpenResult) (last n idx : ℕ)
    (h : Q v.shared) : Q (releaseLoop cfg opens last n idx v).2.shared := by
  induction n generalizing idx v with
  | zero => exact h
  | succ n ih =>
    unfold DealsServer.releaseLoop
    split_ifs
    · have hunlink := hQ.unlinkEntry cfg idx opens h
      rcases hres : v.unlinkEntry cfg idx opens with ⟨_ | err, w⟩ <;> rw [hres] at hunlink
      · exact ih (idx - 1) hunlink
      · exact hunlink
    · exact h

theorem Stable.cleanupLoop (hQ : Stable Q) (cfg : TableConfig) (opens : Bytes → OpenResult) (n idx : ℕ)
    (h : Q v.shared) : Q (cleanupLoop cfg opens n idx v).2.shared := by
  induction n generalizing idx v with
  | zero => exact h
  | succ n ih =>
    unfold DealsServer.cleanupLoop
    split_ifs
    · have hunlink := hQ.unlinkEntry cfg idx opens h
      rcases hres : v.unlinkEntry cfg idx opens with ⟨_ | err, w⟩ <;> rw [hres] at hunlink
      · exact ih (idx + 1) hunlink
      · exact hunlink
    · exact h

theorem Stable.releaseLocked (hQ : Stable Q) (cfg : TableConfig) (now : ℕ) (opens : Bytes → OpenResult)
    (h : Q v.shared) : Q (v.releaseLocked cfg now opens).2.shared := by
  unfold View.releaseLocked
  dsimp only
  split_ifs with hdue hloop
  · exact hQ.releaseLoop cfg opens _ _ _ (hQ.index _ _ _ h)
  · exact hQ.index _ _ _ h
  · exact h

/-- **A stable property is kept by every step.** -/
theorem Stable.step (hQ : Stable Q) (cfg : TableConfig) (a : Action α) (h : Q s.shared) :
    Q (s.step cfg a).shared := by
  have hprocess (v : View α) (pc : Pc α) (op : Op α) (h : Q v.shared) : Q (processStep cfg v pc op a).2.2.shared := by
    have hshifts := processStep_shifts cfg v pc op a
    generalize (processStep cfg v pc op a).2.2 = w at hshifts ⊢
    cases hshifts with
    | stays => exact h
    | released op' hdue => exact hQ.releaseLocked cfg a.now a.opens h
    | dropped op' => exact h
    | reserved records lifetime =>
      obtain ⟨index, g, hframe⟩ := reserve_frame cfg v a.now records.length lifetime a.memLow
      rw [hframe]
      exact hQ.index _ _ _ h
    | cleaned => exact hQ.cleanupLoop cfg a.opens cfg.tableMaxPages 0 h
    | mapped _ name => exact hQ.getPageByName name (a.opens name) h
    | copied o r records => exact hQ.copy _ _ _ _ h
    | closed => exact h
  unfold Processes.step Processes.exec
  rcases a.actor with ⟨pid, op⟩ | value
  · exact hprocess (s.view pid) (s.processes pid).pc op h
  · exact h

/-- No page has the empty name. -/
theorem stable_unnamed : Stable fun sh : SharedMemory α => sh.names [] = none := by
  constructor
  · intro sh name res h
    by_cases hempty : name = []
    · have hopen : sh.openPage name res = (.error .emptyPageName, sh) := if_pos hempty
      rw [hopen]
      exact h
    have hother (value : Option ℕ) : Function.update sh.names name value [] = none := by
      rw [Function.update_of_ne (Ne.symm hempty)]
      exact h
    obtain ⟨o, -, -, hopen⟩ | ⟨-, hopen⟩ | ⟨err, sh', hopen, hfail⟩ := openPage_cases sh name res <;> rw [hopen]
    · exact h
    · exact hother _
    · obtain rfl | ⟨_, -, rfl⟩ | ⟨_, -, -, rfl⟩ := hfail.effect
      · exact h
      · exact hother _
      · exact hother _
  · exact fun _ _ h => h
  · intro sh name h
    by_cases hempty : [] = name
    · rw [unlink_names, hempty, Function.update_self]
    · rw [unlink_names, Function.update_of_ne hempty]
      exact h
  · exact fun _ _ _ _ h => h
  · exact fun _ _ _ h => h

end Stable

/-! ## What becomes of a slot -/

theorem reached_snoc (pre : List (Action α)) (a : Action α) :
    reached cfg (pre ++ [a]) = (reached cfg pre).step cfg a := by
  simp [reached]

/-- The page of the entry has at the slot what was copied there since the entry was last reset. -/
def Filled (cfg : TableConfig) (as : List (Action α)) (idx i : ℕ) : Prop :=
  ∃ o, (reached cfg as).shared.names (cfg.pageName idx) = some o ∧ ((reached cfg as).shared.objects o).sized = true ∧
    Written cfg as idx i (((reached cfg as).shared.objects o).elements i)

/-- The slot is reserved and not copied, or it is filled. -/
def SlotCovered (cfg : TableConfig) (as : List (Action α)) (idx i : ℕ) : Prop :=
  InFlight (reached cfg as) idx i ∨ Abandoned cfg as idx i ∨ Filled cfg as idx i

theorem copies_shared (cfg : TableConfig) {o : ℕ} {r : Reservation} {records : List α} (h : Copies s a o r records) :
    (s.step cfg a).shared = s.shared.copy o r.start records := by
  obtain ⟨pid, op, hactor, hpc⟩ := h
  rw [step_process hactor, hpc]
  rfl

variable {pre : List (Action α)} {idx i : ℕ}

/-- A copy fills its slots. -/
theorem filled_of_copies {o : ℕ} {r : Reservation} {records : List α} (h : Copies (reached cfg pre) a o r records)
    (hatt : Attached cfg (reached cfg pre)) (hcurrent : SeesCurrent cfg (reached cfg pre) a)
    (hcovers : r.Covers records.length idx i) : Filled cfg (pre ++ [a]) idx i := by
  obtain ⟨rfl, hle, hlt⟩ := hcovers
  have hshared := copies_shared cfg h
  obtain ⟨pid, op, hactor, hpc⟩ := h
  have hpage : ((reached cfg pre).processes pid).pc.page cfg = some (cfg.pageName r.idx, o) := by rw [hpc]; rfl
  have hi : i - r.start < records.length := by omega
  refine ⟨o, ?_, ?_, ?_⟩
  · rw [reached_snoc, hshared]
    exact hcurrent pid op _ o hactor hpage
  · rw [reached_snoc, hshared]
    exact (copy_mapped (hatt.held pid _ o hpage)).sized
  · apply since_last
    refine ⟨o, r, records, ⟨pid, op, hactor, hpc⟩, rfl, hle, ?_⟩
    rw [reached_snoc, hshared, copy_elements, if_pos hle, List.getElem?_eq_getElem hi]
    rfl

/-- A filled slot stays filled until its entry is reset. -/
theorem Filled.step (h : Filled cfg pre idx i) (hf : Formed cfg (reached cfg pre)) (hatt : Attached cfg (reached cfg pre))
    (hcurrent : SeesCurrent cfg (reached cfg pre) a) (hreset : ¬ Resets cfg idx (reached cfg pre) a) :
    Filled cfg (pre ++ [a]) idx i := by
  obtain ⟨o, hname, hsized, hwritten⟩ := h
  have hmapped := hatt.sound.mapped hname hsized
  obtain ⟨o', r, records, hcopies, hshared⟩ | hkeeps := step_keeps cfg (reached cfg pre) a
  · by_cases hover : o = o' ∧ r.start ≤ i ∧ i < r.start + records.length
    · -- the page has one name, so the copy is to this entry
      obtain ⟨rfl, hle, hlt⟩ := hover
      obtain ⟨pid, op, hactor, hpc⟩ := hcopies
      have hpage := hcurrent pid op (cfg.pageName r.idx) o hactor (by rw [hpc]; rfl)
      have hidx : r.idx = idx := pageName_injective (hatt.sound.injective _ _ o hpage hname)
      exact filled_of_copies ⟨pid, op, hactor, hpc⟩ hatt hcurrent ⟨hidx, hle, hlt⟩
    · -- a copy to another slot or another page leaves the element
      have hsame : (((reached cfg pre).shared.copy o' r.start records).objects o).elements i =
          ((reached cfg pre).shared.objects o).elements i := by
        by_cases heq : o = o'
        · subst heq
          rw [copy_elements]
          split_ifs with hle
          · rw [List.getElem?_eq_none (by omega)]
            rfl
          · rfl
        · rw [copy_object _ heq]
      refine ⟨o, ?_, ?_, ?_⟩ <;> rw [reached_snoc, hshared]
      · exact hname
      · exact (copy_mapped hmapped).sized
      · rw [hsame]
        exact hwritten.snoc hreset
  · -- without a copy the object keeps its elements, and the entry its page
    refine ⟨o, ?_, ?_, ?_⟩ <;> rw [reached_snoc]
    · exact name_kept hf hatt.sound hkeeps hname hsized hreset
    · exact (hkeeps.mapped _ o hmapped).sized
    · rw [hkeeps.elements o hmapped.allocated]
      exact hwritten.snoc hreset

/-- **A covered slot stays covered** until its entry is reset. -/
theorem SlotCovered.step (h : SlotCovered cfg pre idx i) (hf : Formed cfg (reached cfg pre))
    (hatt : Attached cfg (reached cfg pre)) (hcurrent : SeesCurrent cfg (reached cfg pre) a)
    (hreset : ¬ Resets cfg idx (reached cfg pre) a) : SlotCovered cfg (pre ++ [a]) idx i := by
  obtain ⟨pid, r, records, hpending, hcovers⟩ | habandoned | hfilled := h
  · -- a pending copy is still pending, or its operation fails, or the records are written
    obtain hwaits | hfails | ⟨o, hcopies⟩ := pending_after cfg a hpending
    · rw [← reached_snoc] at hwaits
      exact .inl ⟨pid, r, records, hwaits, hcovers⟩
    · exact .inr (.inl (since_last ⟨r, records, hfails, hcovers⟩))
    · exact .inr (.inr (filled_of_copies hcopies hatt hcurrent hcovers))
  · exact .inr (.inl (habandoned.snoc hreset))
  · exact .inr (.inr (hfilled.step hf hatt hcurrent hreset))

/-! ## What becomes of an entry -/

/-- All slots up to the size of the entry are covered. -/
def Covered (cfg : TableConfig) (as : List (Action α)) (idx : ℕ) : Prop :=
  ∀ i < ((reached cfg as).shared.index idx).used cfg, SlotCovered cfg as idx i

theorem Covered.step (h : Covered cfg pre idx ∨ Resets cfg idx (reached cfg pre) a) (hf : Formed cfg (reached cfg pre))
    (hatt : Attached cfg (reached cfg pre)) (hcurrent : SeesCurrent cfg (reached cfg pre) a) :
    Covered cfg (pre ++ [a]) idx := by
  intro i hi
  -- either this step hands out slots of the entry, or the entry is as it was or cleared
  by_cases hgrant : ∃ pid r records lifetime, Grants cfg (reached cfg pre) a pid r records lifetime ∧ r.idx = idx
  · obtain ⟨pid, r, records, lifetime, hgrant, rfl⟩ := hgrant
    obtain ⟨hpc, hroom, hkind⟩ := hgrant.cases hf.bounded
    rw [← reached_snoc] at hpc hroom
    have hused : ((reached cfg (pre ++ [a])).shared.index r.idx).used cfg +
        ((reached cfg (pre ++ [a])).shared.index r.idx).pageElementsAvailable = cfg.maxElementsInPage :=
      used_add (by omega)
    -- the new slots are pending, the old ones were covered before
    by_cases hnew : r.start ≤ i
    · exact .inl ⟨pid, r, records, by rw [hpc]; rfl, rfl, hnew, by omega⟩
    obtain ⟨hreset, hold, hstart⟩ | ⟨hstart, -⟩ := hkind
    · have hbefore : ((reached cfg pre).shared.index r.idx).used cfg +
          ((reached cfg pre).shared.index r.idx).pageElementsAvailable = cfg.maxElementsInPage :=
        used_add (by omega)
      exact (h.resolve_right hreset i (by omega)).step hf hatt hcurrent hreset
    · omega
  · obtain hsame | ⟨-, hclear⟩ | hgrants := entry_cases cfg (reached cfg pre) a hf.bounded idx
    · have hreset : ¬ Resets cfg idx (reached cfg pre) a := by
        rintro (⟨r, count, lifetime, hhands, hidx, -⟩ | ⟨hused, hzero⟩)
        · obtain ⟨pid, records, -, hgrants⟩ := hhands.grants
          exact hgrant ⟨pid, r, records, lifetime, hgrants, hidx⟩
        · rw [hsame] at hzero
          omega
      rw [reached_snoc, hsame] at hi
      exact (h.resolve_right hreset i hi).step hf hatt hcurrent hreset
    · rw [reached_snoc, hclear] at hi
      have hused : (TablePageIndexElement.clearFull cfg).used cfg = 0 := by
        have hall : (TablePageIndexElement.clearFull cfg).used cfg + cfg.maxElementsInPage = cfg.maxElementsInPage :=
          used_add le_rfl
        omega
      omega
    · exact absurd hgrants hgrant

/-! ## What `processRecords` selects -/

/-- The entries that a `processRecords` has selected and not read yet. -/
def Pc.selected : Pc α → List ℕ
  | .scan todo => todo
  | .scanPage _ _ idx todo => idx :: todo
  | _ => []

/-- Entries in use and selected entries are covered, and pages are opened under the names of their entries. -/
structure Followed (cfg : TableConfig) (as : List (Action α)) : Prop where
  used : ∀ idx, 0 < ((reached cfg as).shared.index idx).expireAt → Covered cfg as idx
  selected : ∀ pid, ∀ idx ∈ ((reached cfg as).processes pid).pc.selected, Covered cfg as idx
  page : ∀ pid name o idx todo, ((reached cfg as).processes pid).pc = .scanPage name o idx todo →
    name = [] ∨ name = cfg.pageName idx

theorem followed_nil : Followed cfg ([] : List (Action α)) :=
  ⟨fun _ h => absurd h (lt_irrefl 0), nofun, nofun⟩

theorem Followed.step (h : Followed cfg pre) (hf : Formed cfg (reached cfg pre)) (hatt : Attached cfg (reached cfg pre))
    (hcurrent : SeesCurrent cfg (reached cfg pre) a) : Followed cfg (pre ++ [a]) := by
  have hcovered {idx : ℕ} (hc : Covered cfg pre idx ∨ Resets cfg idx (reached cfg pre) a) :
      Covered cfg (pre ++ [a]) idx := Covered.step hc hf hatt hcurrent
  refine ⟨fun idx hused => hcovered ?_, fun pid idx hselected => hcovered ?_, fun pid name o idx todo hpc => ?_⟩
  · -- an entry that is used was used before or is handed out by this step
    rw [reached_snoc] at hused
    obtain hsame | ⟨-, hclear⟩ | ⟨pid, r, records, lifetime, hgrant, rfl⟩ :=
      entry_cases cfg (reached cfg pre) a hf.bounded idx
    · rw [hsame] at hused
      exact .inl (h.used idx hused)
    · rw [hclear] at hused
      exact absurd hused (lt_irrefl 0)
    · obtain ⟨-, -, ⟨-, hbefore, -⟩ | ⟨-, hreset⟩⟩ := hgrant.cases hf.bounded
      · exact .inl (h.used _ hbefore)
      · exact .inr hreset
  · left
    rw [reached_snoc] at hselected
    by_cases hactor : ∃ op, a.actor = .process pid op
    swap
    · rw [step_others (not_exists.1 hactor)] at hselected
      exact h.selected pid idx hselected
    obtain ⟨op, hactor⟩ := hactor
    have hmoves := step_moves cfg (reached cfg pre) hactor
    have hold := h.selected pid
    generalize (((reached cfg pre).step cfg a).processes pid).pc = pc' at hselected hmoves
    generalize ((reached cfg pre).processes pid).pc = pc at hmoves hold
    cases hmoves with
    | begins op' => cases op' <;> cases hselected
    -- the selection takes entries that are used
    | selected =>
      have hlive := (mem_recordsToScan _ _ hselected).2.2.1
      exact h.used idx (Nat.lt_of_le_of_lt (Nat.zero_le _) hlive)
    | pageOpened idx' todo o => exact hold idx hselected
    | pageRead name o idx' todo => exact hold idx (List.mem_cons_of_mem idx' hselected)
    | _ => cases hselected
  · rw [reached_snoc] at hpc
    by_cases hactor : ∃ op, a.actor = .process pid op
    swap
    · rw [step_others (not_exists.1 hactor)] at hpc
      exact h.page pid name o idx todo hpc
    obtain ⟨op, hactor⟩ := hactor
    have hmoves := step_moves cfg (reached cfg pre) hactor
    generalize ((reached cfg pre).step cfg a |>.processes pid).pc = pc' at hpc hmoves
    generalize ((reached cfg pre).processes pid).pc = pc at hmoves
    cases hmoves with
    | begins op' => cases op' <;> cases hpc
    | pageOpened idx' todo' o' =>
      cases hpc
      exact hf.names idx
    | _ => cases hpc

/-- **No element of earlier use is delivered.** For any processes in any order that see the same pages, each element
that `processRecords` reads was copied to its slot since the entry was last reset, if no slot that is read is
reserved and not copied. -/
theorem noPhantoms (cfg : TableConfig) (as : List (Action α))
    (hcurrent : Always (Processes.step cfg) (SeesCurrent cfg) Processes.init as) (hcopied : ReadsCopied cfg as) :
    NoPhantoms cfg as := by
  -- the invariant along the run, one action at a time
  have hfollowed : ∀ pre : List (Action α), Always (Processes.step cfg) (SeesCurrent cfg) Processes.init pre →
      Attached cfg (reached cfg pre) ∧ (reached cfg pre).shared.names [] = none ∧ Followed cfg pre := by
    intro pre
    induction pre using List.reverseRecOn with
    | nil => exact fun _ => ⟨attached_init, rfl, followed_nil⟩
    | append_singleton pre a ih =>
      intro hpre
      obtain ⟨hbefore, ha, -⟩ := (always_append _ pre [a]).1 hpre
      obtain ⟨hatt, hunnamed, hfollowed⟩ := ih hbefore
      have hstep := hfollowed.step (formed_reached pre) hatt ha
      rw [reached_snoc]
      exact ⟨hatt.step a, stable_unnamed.step cfg a hunnamed, hstep⟩
  rintro pre a post o idx rfl hscans i hi
  have hfree := hcopied pre a post o idx rfl hscans i hi
  obtain ⟨hbefore, ha, -⟩ := (always_append _ pre (a :: post)).1 hcurrent
  obtain ⟨hatt, hunnamed, hfollowed⟩ := hfollowed pre hbefore
  obtain ⟨pid, op, name, todo, hactor, hpc⟩ := hscans
  have hname : (reached cfg pre).shared.names name = some o := ha pid op name o hactor (by rw [← reached, hpc]; rfl)
  have hcovered := hfollowed.selected pid idx (by rw [hpc]; exact List.mem_cons_self) i hi
  -- a covered slot is pending, abandoned or written, and the first two are excluded
  obtain hflight | habandoned | ⟨o', hpage, -, hwritten⟩ := hcovered
  · exact absurd hflight hfree.1
  · exact absurd habandoned hfree.2
  · obtain rfl | rfl := hfollowed.page pid name o idx todo hpc
    · rw [hunnamed] at hname
      cases hname
    · rw [hpage] at hname
      cases hname
      exact hwritten

/-! ## Runs of two processes -/

/-- In a run of the processes 0 and 1, no other process moves. -/
theorem idle_of_others {as : List (Action UInt8)} (has : ∀ a ∈ as, ∃ pid now op, pid < 2 ∧ a = act pid now false op)
    {pid k : ℕ} (hpid : 2 ≤ pid) :
    (reached smallTable (as.take k)).processes pid = (Processes.init : Processes UInt8).processes pid := by
  apply run_others
  intro a ha op heq
  obtain ⟨pid', now, op', hlt, rfl⟩ := has a (List.mem_of_mem_take ha)
  cases heq
  omega

theorem pre_eq_take {ι : Type} {as pre post : List ι} (h : as = pre ++ post) :
    pre = as.take pre.length ∧ pre.length ≤ as.length := by
  rw [h, List.take_left, List.length_append]
  exact ⟨rfl, Nat.le_add_right _ _⟩

theorem sees_act {s : Processes UInt8} {pid now : ℕ} {op : Op UInt8}
    (h : ∀ name o, (s.processes pid).pc.page smallTable = some (name, o) → s.shared.names name = some o) :
    SeesCurrent smallTable s (act pid now false op) := by
  rintro pid' op' name o ⟨⟩ hpage
  exact h name o hpage

/-- One process adds a record, and another then reads the table. -/
def addThenScan : List (Action UInt8) :=
  List.replicate 6 (act 0 100 false (.addRecord [7] 0)) ++ List.replicate 6 (act 1 101 false .processRecords)

theorem addThenScan_acts : ∀ a ∈ addThenScan, ∃ pid now op, pid < 2 ∧ a = act pid now false op := by
  intro a ha
  rcases List.mem_append.1 ha with hadd | hread
  · exact ⟨0, 100, _, by decide, List.eq_of_mem_replicate hadd⟩
  · exact ⟨1, 101, _, by decide, List.eq_of_mem_replicate hread⟩

theorem addThenScan_sees :
    Always (Processes.step smallTable) (SeesCurrent smallTable) Processes.init addThenScan := by
  refine ⟨sees_act nofun, sees_act nofun, sees_act nofun, sees_act nofun, sees_act nofun, sees_act ?_, sees_act nofun,
    sees_act nofun, sees_act nofun, sees_act nofun, sees_act nofun, sees_act ?_, trivial⟩
  · rintro name o ⟨⟩
    rfl
  · rintro name o ⟨⟩
    rfl

/-- Where the processes stand: one reads the page before the last step, one has reserved a slot after four. -/
theorem addThenScan_pcs {k : ℕ} (pid : ℕ) (hk : k ≤ 12) :
    (∀ name o idx todo, ((reached smallTable (addThenScan.take k)).processes pid).pc = .scanPage name o idx todo →
      k = 11) ∧
    (∀ r, ((reached smallTable (addThenScan.take k)).processes pid).pc.pending = some r → k = 4 ∨ k = 5) ∧
    ∀ r records, ((reached smallTable (addThenScan.take k)).processes pid).pc = .openPage r records →
      k = 4 ∧ pid = 0 := by
  rcases Nat.lt_or_ge pid 2 with hpid | hpid
  · refine ⟨fun name o idx todo hpc => ?_, fun r hpending => ?_, fun r records hpc => ?_⟩
    · interval_cases pid <;> interval_cases k <;> first | rfl | cases hpc
    · interval_cases pid <;> interval_cases k <;> first | omega | cases hpending
    · interval_cases pid <;> interval_cases k <;> first | omega | cases hpc
  · rw [idle_of_others addThenScan_acts hpid]
    exact ⟨nofun, nofun, nofun⟩

theorem addThenScan_copied : ReadsCopied smallTable addThenScan := by
  rintro pre a post o idx hsplit ⟨pid, op, name, todo, -, hpc⟩ i -
  obtain ⟨hpre, hlen⟩ := pre_eq_take hsplit
  have hscan : pre.length = 11 := by
    rw [hpre] at hpc
    exact (addThenScan_pcs _ hlen).1 _ _ _ _ hpc
  constructor
  · rintro ⟨pid', r, records, hpending, -⟩
    rw [hpre] at hpending
    have := (addThenScan_pcs _ hlen).2.1 _ hpending
    omega
  · rintro ⟨before, b, mid, rfl, ⟨r, records, ⟨pid', op', hactor, hopen, hfails⟩, -⟩, -⟩
    have hb : addThenScan = before ++ b :: (mid ++ a :: post) := by simpa using hsplit
    obtain ⟨hbefore, hlen'⟩ := pre_eq_take hb
    obtain ⟨pid'', now, op'', -, rfl⟩ := addThenScan_acts b (by rw [hb]; simp)
    cases hactor
    have hstart := (addThenScan_pcs pid' hlen').2.2 r records
    rw [← hbefore] at hstart
    obtain ⟨hfour, rfl⟩ := hstart hopen
    apply hfails
    have hreached : run (Processes.step smallTable) Processes.init before = reached smallTable (addThenScan.take 4) := by
      rw [hbefore, hfour]
      rfl
    rw [hreached]
    rfl

theorem noPhantoms_addThenScan : NoPhantoms smallTable addThenScan :=
  noPhantoms smallTable addThenScan addThenScan_sees addThenScan_copied

/-! ## A page that is read too early -/

/-- A process reserves a slot, and another selects the entry, opens its page and reads it before the copy. -/
def earlyRead : List (Action UInt8) :=
  List.replicate 4 (act 0 100 false (.addRecord [7] 0)) ++ List.replicate 6 (act 1 101 false .processRecords)

theorem earlyRead_acts : ∀ a ∈ earlyRead, ∃ pid now op, pid < 2 ∧ a = act pid now false op := by
  intro a ha
  rcases List.mem_append.1 ha with hadd | hread
  · exact ⟨0, 100, _, by decide, List.eq_of_mem_replicate hadd⟩
  · exact ⟨1, 101, _, by decide, List.eq_of_mem_replicate hread⟩

/-- No process comes to a copy. -/
theorem earlyRead_copies {k pid o : ℕ} {r : Reservation} {records : List UInt8} (hk : k ≤ 10) :
    ((reached smallTable (earlyRead.take k)).processes pid).pc ≠ .copy o r records := by
  intro hpc
  rcases Nat.lt_or_ge pid 2 with hpid | hpid
  · interval_cases pid <;> interval_cases k <;> cases hpc
  · rw [idle_of_others earlyRead_acts hpid] at hpc
    cases hpc

/-- **A reserved slot is read.** All processes see the same pages, and no element was copied to the slot. -/
theorem early_read : Always (Processes.step smallTable) (SeesCurrent smallTable) Processes.init earlyRead ∧
    ¬ NoPhantoms smallTable earlyRead := by
  constructor
  · refine ⟨sees_act nofun, sees_act nofun, sees_act nofun, sees_act nofun, sees_act nofun, sees_act nofun,
      sees_act nofun, sees_act nofun, sees_act nofun, sees_act ?_, trivial⟩
    rintro name o ⟨⟩
    rfl
  · intro h
    have hscans : Scans (reached smallTable (earlyRead.take 9)) (act 1 101 false .processRecords) 0 0 :=
      ⟨1, _, _, _, rfl, rfl⟩
    obtain ⟨before, b, mid, hpre, ⟨o, r, records, ⟨pid, op, -, hpc⟩, -⟩, -⟩ :=
      h (earlyRead.take 9) _ [] 0 0 rfl hscans 0 (by decide +kernel)
    have hsplit : earlyRead = before ++ (b :: mid ++ earlyRead.drop 9) := by
      rw [← List.append_assoc, ← hpre, List.take_append_drop]
    obtain ⟨hbefore, hlen⟩ := pre_eq_take hsplit
    rw [hbefore] at hpc
    exact earlyRead_copies hlen hpc

end DealsServer
