import DealsServer.Proof.Slots

/-!
# Elements that were written are read

* `readYourWrites`: in every run of `Steady` steps, which use current mappings and reset no entry under an `addRecord`, whoever
  reads slots of a completed `addRecord` reads its records, until the entry is reset.
* `stale_mapping`: a process that has a removed page mapped reads the elements of its former use.
-/

namespace DealsServer

open StateMachine

variable {α : Type} {cfg : TableConfig} {s : Processes α} {a : Action α}

/-- The elements of an object after records were copied into it. -/
theorem copy_elements (sh : SharedMemory α) (o start : ℕ) (records : List α) (i : ℕ) :
    ((sh.copy o start records).objects o).elements i =
      if start ≤ i then (records[i - start]?).getD ((sh.objects o).elements i) else (sh.objects o).elements i := by
  unfold SharedMemory.copy
  dsimp only
  rw [Function.update_self]

theorem copy_object (sh : SharedMemory α) {o o' : ℕ} (hne : o' ≠ o) (start : ℕ) (records : List α) :
    (sh.copy o start records).objects o' = sh.objects o' := Function.update_of_ne hne ..

theorem reading_page {pid : ℕ} {name : Bytes} {o start count : ℕ}
    (h : s.reading cfg pid = some (name, o, start, count)) : (s.processes pid).pc.page cfg = some (name, o) := by
  unfold Processes.reading at h
  rcases hpc : (s.processes pid).pc with _ | _ | _ | _ | _ | _ | _ | ⟨name', o', idx, todo⟩ | _ | _ | ⟨o', place⟩ <;>
    rw [hpc] at h <;> cases h <;> rfl

/-! ## The property -/

/-- The step reads a slot of a page, in an object that the process has mapped for it. -/
def ReadsSlot (cfg : TableConfig) (s : Processes α) (a : Action α) (name : Bytes) (o slot : ℕ) : Prop :=
  ∃ pid op start count, a.actor = .process pid op ∧ s.reading cfg pid = some (name, o, start, count) ∧
    start ≤ slot ∧ slot < start + count

variable [Inhabited α]

/-- Whoever reads a slot of a completed `addRecord` reads the record, as long as the entry is not reset. -/
def ReadYourWrites (cfg : TableConfig) (as : List (Action α)) : Prop :=
  ∀ pre c mid d post o r records o' i, as = pre ++ c :: (mid ++ d :: post) →
    Copies (reached cfg pre) c o r records →
    Always (Processes.step cfg) (fun s a => ¬ Resets cfg r.idx s a) (reached cfg (pre ++ [c])) mid →
    ReadsSlot cfg (reached cfg (pre ++ c :: mid)) d (cfg.pageName r.idx) o' (r.start + i) →
    ∀ hi : i < records.length, ((reached cfg (pre ++ c :: mid)).shared.objects o').elements (r.start + i) = records[i]

/-! ## The condition -/

/-- A page that the step copies into or reads is the one its name stands for. -/
def SeesCurrent (cfg : TableConfig) (s : Processes α) (a : Action α) : Prop :=
  ∀ pid op name o, a.actor = .process pid op → (s.processes pid).pc.page cfg = some (name, o) →
    s.shared.names name = some o

/-- The step uses a current mapping, and resets no entry on which an `addRecord` is about to copy. -/
structure Steady (cfg : TableConfig) (s : Processes α) (a : Action α) : Prop where
  current : SeesCurrent cfg s a
  settled : Settled cfg s a

/-! ## Records in a page -/

/-- The page of the entry has the records from the slot `start` on, and no `addRecord` is about to copy over them. -/
structure Stored (cfg : TableConfig) (idx start : ℕ) (records : List α) (s : Processes α) : Prop where
  held : Held cfg idx (start + records.length) s.shared.index
  clear : ∀ but, Clear s idx start (start + records.length) but
  page : ∃ o, s.shared.names (cfg.pageName idx) = some o ∧ (s.shared.objects o).sized = true ∧
    ∀ i, ∀ hi : i < records.length, (s.shared.objects o).elements (start + i) = records[i]

/-- What every step of the runs keeps. -/
structure Orderly (cfg : TableConfig) (s : Processes α) : Prop where
  formed : Formed cfg s
  attached : Attached cfg s
  apart : Apart cfg s

theorem orderly_init : Orderly cfg (Processes.init : Processes α) := ⟨formed_init, attached_init, apart_init⟩

theorem Orderly.step (h : Orderly cfg s) (hok : Steady cfg s a) : Orderly cfg (s.step cfg a) :=
  ⟨h.formed.step a, h.attached.step a, h.apart.step h.formed.bounded hok.settled⟩

/-- The name of an entry that is not reset stays with its object. -/
theorem name_kept {idx : ℕ} {o : ℕ} (hf : Formed cfg s) (hs : Sound s.shared)
    (hkeeps : Keeps (Cleared s.shared.index (s.step cfg a).shared.index) s.shared (s.step cfg a).shared)
    (hname : s.shared.names (cfg.pageName idx) = some o) (hsized : (s.shared.objects o).sized = true)
    (hreset : ¬ Resets cfg idx s a) : (s.step cfg a).shared.names (cfg.pageName idx) = some o := by
  apply hkeeps.names hs _ o hname hsized
  rintro ⟨j, hused, hzero, heq⟩
  rcases hf.names j with hnil | hj
  · rw [hnil] at heq
    exact pageName_ne_nil idx heq.symm
  · rw [hj] at heq
    have := pageName_injective heq
    subst this
    exact hreset (.inr ⟨hused, hzero⟩)

/-- **Stored records stay**, as long as the entry is not reset. -/
theorem Stored.step {idx start : ℕ} {records : List α} (h : Stored cfg idx start records s) (hs : Orderly cfg s)
    (hok : Steady cfg s a) (hreset : ¬ Resets cfg idx s a) : Stored cfg idx start records (s.step cfg a) := by
  refine ⟨held_step hs.formed.bounded h.held hreset,
    fun but => (h.clear but).step hs.formed.bounded h.held hreset, ?_⟩
  obtain ⟨o, hname, hsized, helements⟩ := h.page
  obtain ⟨o', r, records', hcopies, hshared⟩ | hkeeps := step_keeps cfg s a
  · rw [hshared]
    refine ⟨o, hname, ?_⟩
    by_cases heq : o = o'
    swap
    · rw [copy_object s.shared heq]
      exact ⟨hsized, helements⟩
    subst heq
    obtain ⟨pid, op, hactor, hpc⟩ := hcopies
    have hcurrent := hok.current pid op _ o hactor (by rw [hpc]; rfl)
    have hidx : r.idx = idx := pageName_injective (hs.attached.sound.injective _ _ o hcurrent hname)
    have hclear := h.clear (pid + 1) pid r records' (by omega) (by rw [hpc]; rfl) hidx
    refine ⟨(copy_mapped (hs.attached.sound.mapped hname hsized)).sized, fun i hi => ?_⟩
    rw [copy_elements, ← helements i hi]
    split_ifs with hle
    · rw [List.getElem?_eq_none (by omega)]
      rfl
    · rfl
  · refine ⟨o, name_kept hs.formed hs.attached.sound hkeeps hname hsized hreset, ?_, fun i hi => ?_⟩
    · exact (hkeeps.mapped _ o (hs.attached.sound.mapped hname hsized)).sized
    · rw [hkeeps.elements o (hs.attached.sound.allocated _ o hname)]
      exact helements i hi

/-- A copy stores its records. -/
theorem copies_stored {o : ℕ} {r : Reservation} {records : List α} (h : Copies s a o r records) (hs : Orderly cfg s)
    (hok : Steady cfg s a) : Stored cfg r.idx r.start records (s.step cfg a) := by
  obtain ⟨pid, op, hactor, hpc⟩ := h
  have hpending : (s.processes pid).pc.pending = some (r, records) := by rw [hpc]; rfl
  have hpage : (s.processes pid).pc.page cfg = some (cfg.pageName r.idx, o) := by rw [hpc]; rfl
  have hstep : s.step cfg a = s.put pid .idle { s.view pid with shared := s.shared.copy o r.start records } := by
    rw [step_process hactor, hpc]
    rfl
  rw [hstep]
  refine ⟨hs.apart.held pid r records hpending, fun but pid' r' records' _ hpending' => ?_, o, ?_, ?_, fun i hi => ?_⟩
  · rw [put_processes] at hpending'
    by_cases hpid : pid' = pid
    · rw [hpid, Function.update_self] at hpending'
      cases hpending'
    · rw [Function.update_of_ne hpid] at hpending'
      exact hs.apart.apart pid r records hpending pid' r' records' hpid hpending'
  · exact hok.current pid op _ o hactor hpage
  · exact (copy_mapped (hs.attached.held pid _ o hpage)).sized
  · show ((s.shared.copy o r.start records).objects o).elements (r.start + i) = records[i]
    rw [copy_elements, if_pos (by omega), Nat.add_sub_cancel_left, List.getElem?_eq_getElem hi]
    rfl

/-! ## Runs -/

/-- **What was written is read.** -/
theorem readYourWrites (cfg : TableConfig) (as : List (Action α))
    (h : Always (Processes.step cfg) (Steady cfg) Processes.init as) : ReadYourWrites cfg as := by
  rintro pre c mid d post o r records o' i rfl hcopies hreset ⟨pid, op, start, count, hactor, hreading, hslot⟩ hi
  have hsplit : pre ++ c :: (mid ++ d :: post) = pre ++ ([c] ++ (mid ++ d :: post)) := rfl
  rw [hsplit, always_append, always_append, always_append] at h
  obtain ⟨hpre, ⟨hc, -⟩, hmid, hd, -⟩ := h
  have horderly : Orderly cfg (reached cfg pre) :=
    inv_run (Orderly cfg) (fun s a hs hok => hs.step hok) orderly_init hpre
  have hafter : (reached cfg pre).step cfg c = reached cfg (pre ++ [c]) := by simp [reached]
  have hstart : run (Processes.step cfg) (run (Processes.step cfg) Processes.init pre) [c] =
      reached cfg (pre ++ [c]) := hafter
  rw [hstart] at hmid hd
  have hstored := copies_stored hcopies horderly hc
  have hstep := horderly.step hc
  rw [hafter] at hstored hstep
  have hkept := inv_run (fun s => Orderly cfg s ∧ Stored cfg r.idx r.start records s)
    (fun s a h hok => ⟨h.1.step hok.1, h.2.step h.1 hok.1 hok.2⟩) ⟨hstep, hstored⟩ (hmid.and hreset)
  rw [reached_append] at hkept hd
  obtain ⟨o'', hname, -, helements⟩ := hkept.2.page
  have hcurrent := hd.current pid op _ o' hactor (reading_page hreading)
  rw [hname] at hcurrent
  cases hcurrent
  exact helements i hi

/-- A step outside the locked section of an `addRecord` that leaves the index as it is. -/
theorem steady_of_same {pid : ℕ} {op : Op α} (hactor : a.actor = .process pid op)
    (hpc : ∀ records lifetime, (s.processes pid).pc ≠ .locked (.addRecord records lifetime))
    (hindex : (s.step cfg a).shared.index = s.shared.index)
    (hcurrent : ∀ name o, (s.processes pid).pc.page cfg = some (name, o) → s.shared.names name = some o) :
    Steady cfg s a := by
  constructor
  · intro pid' op' name o hactor' hpage
    rw [hactor] at hactor'
    cases hactor'
    exact hcurrent name o hpage
  · rintro pid' r records - (⟨r', count, lifetime, ⟨pid'', op', records', hactor', hlocked, -⟩, -⟩ | ⟨hused, hzero⟩)
    · rw [hactor] at hactor'
      cases hactor'
      exact hpc records' lifetime hlocked
    · rw [hindex] at hzero
      omega

/-- One process adds a record, another reads it. -/
def addThenRead : List (Action UInt8) :=
  List.replicate 6 (act 0 100 false (.addRecord [7] 0)) ++
    List.replicate 3 (act 1 100 false (.getElementData ⟨str "T:0", 0, 1⟩))

theorem addThenRead_steady :
    Always (Processes.step smallTable) (Steady smallTable) Processes.init addThenRead := by
  -- in the one step that hands out slots no copy is pending
  have hgrant : Steady smallTable (reached smallTable (addThenRead.take 3)) (act 0 100 false (.addRecord [7] 0)) := by
    constructor
    · rintro pid op name o ⟨⟩ ⟨⟩
    · intro pid r records hpending
      by_cases hpid : pid = 0
      · rw [hpid] at hpending
        cases hpending
      · have hidle : (reached smallTable (addThenRead.take 3)).processes pid =
            (Processes.init : Processes UInt8).processes pid := by
          apply run_others
          intro a ha op heq
          have hact := List.eq_of_mem_replicate (show a ∈ List.replicate 3 (act 0 100 false (.addRecord [7] 0)) from ha)
          rw [hact] at heq
          cases heq
          exact hpid rfl
        rw [hidle] at hpending
        cases hpending
  have hsame (s : Processes UInt8) (pid : ℕ) (op : Op UInt8)
      (hpc : ∀ records lifetime, (s.processes pid).pc ≠ .locked (.addRecord records lifetime))
      (hindex : (s.step smallTable (act pid 100 false op)).shared.index = s.shared.index)
      (hcurrent : ∀ name o, (s.processes pid).pc.page smallTable = some (name, o) → s.shared.names name = some o) :
      Steady smallTable s (act pid 100 false op) := steady_of_same rfl hpc hindex hcurrent
  refine ⟨hsame _ _ _ nofun rfl nofun, hsame _ _ _ nofun rfl nofun, hsame _ _ _ nofun rfl nofun, hgrant,
    hsame _ _ _ nofun rfl nofun, hsame _ _ _ nofun rfl ?_, hsame _ _ _ nofun rfl nofun, hsame _ _ _ nofun rfl nofun,
    hsame _ _ _ nofun rfl ?_, trivial⟩
  · rintro name o ⟨⟩
    rfl
  · rintro name o ⟨⟩
    rfl

theorem readYourWrites_addThenRead : ReadYourWrites smallTable addThenRead :=
  readYourWrites smallTable addThenRead addThenRead_steady

/-! ## A stale mapping -/

/-- A process adds a record and another reads it; the table is cleaned up, and a second record is added and read in
its place. -/
def staleRead : List (Action UInt8) :=
  List.replicate 6 (act 0 100 false (.addRecord [7] 0)) ++
    List.replicate 3 (act 1 100 false (.getElementData ⟨str "T:0", 0, 1⟩)) ++
    List.replicate 3 (act 0 100 false .cleanup) ++
    List.replicate 5 (act 0 100 false (.addRecord [9] 0)) ++
    List.replicate 3 (act 1 100 false (.getElementData ⟨str "T:0", 0, 1⟩))

/-- A step outside the locked section of an `addRecord` that leaves the entry used. -/
theorem not_resets {pid idx : ℕ} {op : Op α} (hactor : a.actor = .process pid op)
    (hpc : ∀ records lifetime, (s.processes pid).pc ≠ .locked (.addRecord records lifetime))
    (hused : 0 < ((s.step cfg a).shared.index idx).expireAt) : ¬ Resets cfg idx s a := by
  rintro (⟨r, count, lifetime, ⟨pid', op', records, hactor', hlocked, -⟩, -⟩ | ⟨-, hzero⟩)
  · rw [hactor] at hactor'
    cases hactor'
    exact hpc records lifetime hlocked
  · omega

/-- **A stale mapping is read.** The second record was added and its entry not reset, and the first one is read. -/
theorem stale_mapping : ¬ ReadYourWrites smallTable staleRead := by
  intro h
  have hcopies : Copies (reached smallTable (staleRead.take 16)) (act 0 100 false (.addRecord [9] 0)) 1 ⟨.new, 0, 0⟩ [9] :=
    ⟨0, _, rfl, rfl⟩
  have hreset : Always (Processes.step smallTable) (fun s a => ¬ Resets smallTable 0 s a)
      (reached smallTable (staleRead.take 16 ++ [act 0 100 false (.addRecord [9] 0)])) ((staleRead.drop 17).take 2) := by
    refine ⟨not_resets rfl ?_ (by decide +kernel), not_resets rfl ?_ (by decide +kernel), trivial⟩
    · intro records lifetime hpc
      cases hpc
    · intro records lifetime hpc
      cases hpc
  have hread := h (staleRead.take 16) _ ((staleRead.drop 17).take 2)
    (act 1 100 false (.getElementData ⟨str "T:0", 0, 1⟩)) [] 1 ⟨.new, 0, 0⟩ [9] 0 0 rfl hcopies hreset
    ⟨1, _, 0, 1, rfl, rfl, by decide, by decide⟩ (by decide)
  revert hread
  decide +kernel

end DealsServer
