import DealsServer.Proof.LiveRecords
import DealsServer.Proof.Pages

/-!
# Slots between reservation and copy

* `entry_cases`: what a step does to one entry of the index.
* `pending_before` and `pending_after`: where reservations that are not copied yet come from, and what becomes of
  them.
* `Apart.step`: such reservations do not overlap, as long as no entry is reset under one.
-/

namespace DealsServer

open StateMachine

variable {α : Type} {cfg : TableConfig}

/-- The slots that an `addRecord` has reserved and not yet copied to, and its records. -/
def Pc.pending : Pc α → Option (Reservation × List α)
  | .openPage r records => some (r, records)
  | .copy _ r records => some (r, records)
  | _ => none

theorem pending_cases {pc : Pc α} {r : Reservation} {records : List α} (h : pc.pending = some (r, records)) :
    pc = .openPage r records ∨ ∃ o, pc = .copy o r records := by
  cases pc with
  | openPage r' records' =>
    cases h
    exact .inl rfl
  | copy o r' records' =>
    cases h
    exact .inr ⟨o, rfl⟩
  | _ => cases h

variable {s : Processes α} {a : Action α}

/-- The step is the locked section of an `addRecord` of `records` by the process `pid`, which hands out `r`. -/
structure Grants (cfg : TableConfig) (s : Processes α) (a : Action α) (pid : ℕ) (r : Reservation) (records : List α)
    (lifetime : ℕ) : Prop where
  actor : ∃ op, a.actor = .process pid op
  pc : (s.processes pid).pc = .locked (.addRecord records lifetime)
  result : ((s.view pid).reserve cfg a.now a.memLow records.length lifetime).1 = .ok r

theorem Grants.hands {pid : ℕ} {r : Reservation} {records : List α} {lifetime : ℕ}
    (h : Grants cfg s a pid r records lifetime) : Hands cfg s a r records.length lifetime := by
  obtain ⟨op, hactor⟩ := h.actor
  exact ⟨pid, op, records, hactor, h.pc, rfl, h.result⟩

theorem Hands.grants {r : Reservation} {count lifetime : ℕ} (h : Hands cfg s a r count lifetime) :
    ∃ pid records, records.length = count ∧ Grants cfg s a pid r records lifetime := by
  obtain ⟨pid, op, records, hactor, hpc, hcount, hr⟩ := h
  subst hcount
  exact ⟨pid, records, rfl, ⟨op, hactor⟩, hpc, hr⟩

theorem Grants.unique {pid pid' : ℕ} {r r' : Reservation} {records records' : List α} {lifetime lifetime' : ℕ}
    (h : Grants cfg s a pid r records lifetime) (h' : Grants cfg s a pid' r' records' lifetime') : r = r' := by
  obtain ⟨op, hactor⟩ := h.actor
  obtain ⟨op', hactor'⟩ := h'.actor
  rw [hactor] at hactor'
  cases hactor'
  have hpc := h.pc
  rw [h'.pc] at hpc
  cases hpc
  have hr := h.result
  rw [h'.result] at hr
  exact (Except.ok.inj hr).symm

section Steps

variable [Inhabited α]

/-! ## One entry -/

/-- **What the step grants**: slots behind all others of the entry, or the first ones of an entry that is reset. -/
theorem Grants.cases {pid : ℕ} {r : Reservation} {records : List α} {lifetime : ℕ}
    (h : Grants cfg s a pid r records lifetime) (hb : Bounded cfg s.shared.index) :
    ((s.step cfg a).processes pid).pc = .openPage r records ∧
      r.start + records.length + ((s.step cfg a).shared.index r.idx).pageElementsAvailable = cfg.maxElementsInPage ∧
      (¬ Resets cfg r.idx s a ∧ 0 < (s.shared.index r.idx).expireAt ∧
          r.start + (s.shared.index r.idx).pageElementsAvailable = cfg.maxElementsInPage ∨
        r.start = 0 ∧ Resets cfg r.idx s a) := by
  obtain ⟨op, hactor⟩ := h.actor
  have hr := h.result
  obtain ⟨err, hres, -⟩ | ⟨r', v', hres, hv⟩ := reserve_cases (s.view pid) hb a.now records.length lifetime a.memLow
  · rw [hres] at hr
    cases hr
  rw [hres] at hr
  cases hr
  have hstep : s.step cfg a = s.put pid (.openPage r records) v' := by
    simp only [Processes.step, Processes.exec, hactor, h.pc, processStep, lockedStep, hres]
  have hshared : (s.step cfg a).shared = v'.shared := by rw [hstep]; rfl
  refine ⟨by rw [hstep, put_processes, Function.update_self], by rw [hshared]; exact hv.room, ?_⟩
  -- slots behind those handed out, or a reset entry from its first slot on
  rcases hv.outcome with hcont | hrest
  · refine .inl ⟨?_, hcont.used, hcont.start_eq⟩
    rintro (⟨r', count', lifetime', hhands, -, ht⟩ | ⟨hused, hzero⟩)
    · obtain ⟨pid', records', -, hgrants⟩ := hhands.grants
      rw [← h.unique hgrants] at ht
      exact ht hcont.type_eq
    · rw [hshared, hcont.expireAt_eq] at hzero
      have hle : (s.shared.index r.idx).expireAt ≤ 0 := hzero ▸ le_max_left _ _
      omega
  · refine .inr ⟨hrest.start_eq, .inl ⟨r, _, lifetime, h.hands, rfl, ?_⟩⟩
    rcases hrest.kind with ⟨ht, -⟩ | ⟨ht, -⟩ | ⟨ht, -⟩ <;> simp [ht]

/-- **What a step does to an entry**: nothing, or it clears it, or it grants slots on it. -/
theorem entry_cases (cfg : TableConfig) (s : Processes α) (a : Action α) (hb : Bounded cfg s.shared.index) (idx : ℕ) :
    (s.step cfg a).shared.index idx = s.shared.index idx ∨
    (0 < (s.shared.index idx).expireAt ∧ (s.step cfg a).shared.index idx = .clearFull cfg) ∨
    ∃ pid r records lifetime, Grants cfg s a pid r records lifetime ∧ r.idx = idx := by
  by_cases hgrant : ∃ pid r records lifetime, Grants cfg s a pid r records lifetime ∧ r.idx = idx
  · exact .inr (.inr hgrant)
  rw [← or_assoc]
  left
  have hclears (v' : View α) (lo hi : ℕ) (hused : ∀ j < hi, 0 < (s.shared.index j).expireAt)
      (h : ∀ j, v'.shared.index j = if lo ≤ j ∧ j < hi then .clearFull cfg else s.shared.index j) :
      v'.shared.index idx = s.shared.index idx ∨
        (0 < (s.shared.index idx).expireAt ∧ v'.shared.index idx = .clearFull cfg) := by
    rw [h]
    split_ifs with hin
    · exact .inr ⟨hused idx hin.2, rfl⟩
    · exact .inl rfl
  apply index_step (P := fun index => index idx = s.shared.index idx ∨
    (0 < (s.shared.index idx).expireAt ∧ index idx = .clearFull cfg)) hb (.inl rfl)
  · intro pid v' b e hrel _
    exact hclears v' b e hrel.used hrel.clears.index_eq
  · intro pid op records lifetime r v' hactor hpc hres hv
    refine .inl (hv.others idx fun heq => ?_)
    exact hgrant ⟨pid, r, records, lifetime, ⟨⟨op, hactor⟩, hpc, by rw [hres]⟩, heq.symm⟩
  · intro pid op v' c _ _ hclean _
    exact hclears v' 0 c hclean.used hclean.clears.index_eq

/-! ## Where a process goes -/

/-- The moves of a process that sees the table as `v`. -/
inductive Moves (cfg : TableConfig) (v : View α) (a : Action α) : Pc α → Pc α → Prop
  | ends (pc : Pc α) : Moves cfg v a pc .idle
  | begins (op : Op α) : Moves cfg v a .idle op.begin
  | released (op : Op α) : Moves cfg v a (.release op) (.drop op)
  | notDue (op : Op α) : Moves cfg v a (.release op) (.locked op)
  | dropped (op : Op α) : Moves cfg v a (.drop op) (.locked op)
  | reserved (records : List α) (lifetime : ℕ) (r : Reservation)
      (hr : (v.reserve cfg a.now a.memLow records.length lifetime).1 = .ok r) :
      Moves cfg v a (.locked (.addRecord records lifetime)) (.openPage r records)
  | selected : Moves cfg v a (.locked .processRecords) (.scan (v.recordsToScan cfg a.now))
  | cleaned : Moves cfg v a (.locked .cleanup) .closePages
  | located (place : Location) : Moves cfg v a (.locked (.getElementData place)) (.openElement place)
  | opened (r : Reservation) (records : List α) (o : ℕ) : Moves cfg v a (.openPage r records) (.copy o r records)
  | pageOpened (idx : ℕ) (todo : List ℕ) (o : ℕ) :
      Moves cfg v a (.scan (idx :: todo)) (.scanPage (v.shared.index idx).pageName o idx todo)
  | pageRead (name : Bytes) (o idx : ℕ) (todo : List ℕ) : Moves cfg v a (.scanPage name o idx todo) (.scan todo)
  | elementOpened (place : Location) (o : ℕ) : Moves cfg v a (.openElement place) (.readElement o place)

theorem processStep_moves (cfg : TableConfig) (v : View α) (pc : Pc α) (op : Op α) (a : Action α) :
    Moves cfg v a pc (processStep cfg v pc op a).2.1 := by
  rcases pc with _ | op' | op' | op' | ⟨r, records⟩ | ⟨o, r, records⟩ | todo | ⟨name, o, idx, todo⟩ | _ | place |
    ⟨o, place⟩
  · exact .begins op
  · unfold processStep
    dsimp only
    split_ifs
    · rcases v.releaseLocked cfg a.now a.opens with ⟨_ | err, w⟩
      · exact .released op'
      · exact .ends _
    · exact .notDue op'
  · exact .dropped op'
  · unfold processStep lockedStep
    rcases op' with ⟨records, lifetime⟩ | _ | _ | place
    · dsimp only
      rcases hres : v.reserve cfg a.now a.memLow records.length lifetime with ⟨err | r, w⟩
      · exact .ends _
      · exact .reserved records lifetime r (by rw [hres])
    · exact .selected
    · dsimp only
      rcases cleanupLoop cfg a.opens cfg.tableMaxPages 0 v with ⟨_ | err, w⟩
      · exact .cleaned
      · exact .ends _
    · exact .located place
  · unfold processStep
    dsimp only
    rcases v.getPageByName (cfg.pageName r.idx) (a.opens (cfg.pageName r.idx)) with ⟨err | o, w⟩
    · exact .ends _
    · exact .opened r records o
  · exact .ends _
  · unfold processStep
    rcases todo with _ | ⟨idx, todo⟩
    · exact .ends _
    · dsimp only
      rcases v.getPageByName (v.shared.index idx).pageName (a.opens (v.shared.index idx).pageName) with ⟨err | o, w⟩
      · exact .ends _
      · exact .pageOpened idx todo o
  · exact .pageRead name o idx todo
  · exact .ends _
  · unfold processStep
    dsimp only
    rcases v.getPageByName place.pageName (a.opens place.pageName) with ⟨err | o, w⟩
    · exact .ends _
    · exact .elementOpened place o
  · exact .ends _

/-- **A step of a process is a move.** -/
theorem step_moves (cfg : TableConfig) (s : Processes α) {pid : ℕ} {op : Op α} (hactor : a.actor = .process pid op) :
    Moves cfg (s.view pid) a (s.processes pid).pc ((s.step cfg a).processes pid).pc := by
  rw [step_process hactor, put_processes, Function.update_self]
  exact processStep_moves cfg (s.view pid) (s.processes pid).pc op a

/-! ## Reservations that are not copied -/

/-- The step is an `addRecord` that fails to open its page. -/
def Abandons (cfg : TableConfig) (s : Processes α) (a : Action α) (r : Reservation) (records : List α) : Prop :=
  ∃ pid op, a.actor = .process pid op ∧ (s.processes pid).pc = .openPage r records ∧ (s.exec cfg a).1 ≠ none

/-- Only the process that acts moves. -/
theorem step_others {pid : ℕ} (h : ∀ op, a.actor ≠ .process pid op) :
    (s.step cfg a).processes pid = s.processes pid := by
  unfold Processes.step Processes.exec
  rcases hactor : a.actor with ⟨pid', op⟩ | value
  · have hne : pid ≠ pid' := by
      rintro rfl
      exact h op hactor
    exact Function.update_of_ne hne ..
  · rfl

theorem run_others {pid : ℕ} {as : List (Action α)} (h : ∀ a ∈ as, ∀ op, a.actor ≠ .process pid op) :
    (run (Processes.step cfg) s as).processes pid = s.processes pid := by
  induction as generalizing s with
  | nil => rfl
  | cons a as ih =>
    rw [run_cons, ih fun b hb => h b (List.mem_cons_of_mem a hb)]
    exact step_others (h a List.mem_cons_self)

/-- **Where a reservation comes from.** -/
theorem pending_before {pid : ℕ} {r : Reservation} {records : List α}
    (h : ((s.step cfg a).processes pid).pc.pending = some (r, records)) :
    (s.processes pid).pc.pending = some (r, records) ∨ ∃ lifetime, Grants cfg s a pid r records lifetime := by
  by_cases hactor : ∃ op, a.actor = .process pid op
  swap
  · rw [step_others (not_exists.1 hactor)] at h
    exact .inl h
  obtain ⟨op, hactor⟩ := hactor
  have hmoves := step_moves cfg s hactor
  generalize ((s.step cfg a).processes pid).pc = pc' at h hmoves
  generalize hpc : (s.processes pid).pc = pc at hmoves
  cases hmoves with
  | begins op' => cases op' <;> cases h
  | reserved records' lifetime r' hr =>
    cases h
    exact .inr ⟨lifetime, ⟨op, hactor⟩, hpc, hr⟩
  | opened r' records' o => exact .inl h
  | _ => cases h

/-- **What becomes of a reservation**: it waits, its page cannot be opened, or its records are copied. -/
theorem pending_after (cfg : TableConfig) (a : Action α) {pid : ℕ} {r : Reservation} {records : List α}
    (h : (s.processes pid).pc.pending = some (r, records)) :
    ((s.step cfg a).processes pid).pc.pending = some (r, records) ∨ Abandons cfg s a r records ∨
      ∃ o, Copies s a o r records := by
  by_cases hactor : ∃ op, a.actor = .process pid op
  swap
  · rw [step_others (not_exists.1 hactor)]
    exact .inl h
  obtain ⟨op, hactor⟩ := hactor
  rcases pending_cases h with hpc | ⟨o, hpc⟩
  · rcases hget : (s.view pid).getPageByName (cfg.pageName r.idx) (a.opens (cfg.pageName r.idx)) with ⟨err | o, w⟩
    · refine .inr (.inl ⟨pid, op, hactor, hpc, ?_⟩)
      simp [Processes.exec, hactor, hpc, processStep, hget]
    · left
      rw [step_process hactor, put_processes, Function.update_self, hpc]
      unfold processStep
      dsimp only
      rw [hget]
      rfl
  · exact .inr (.inr ⟨o, pid, op, hactor, hpc⟩)

/-! ## Reservations do not overlap -/

/-- No entry is reset while an `addRecord` stands between its reservation on it and its copy. -/
def Settled (cfg : TableConfig) (s : Processes α) (a : Action α) : Prop :=
  ∀ pid r records, (s.processes pid).pc.pending = some (r, records) → ¬ Resets cfg r.idx s a

/-- The slots lie before or after those of every reservation on the entry. -/
def Clear (s : Processes α) (idx start stop : ℕ) (but : ℕ) : Prop :=
  ∀ pid r records, pid ≠ but → (s.processes pid).pc.pending = some (r, records) → r.idx = idx →
    stop ≤ r.start ∨ r.start + records.length ≤ start

/-- Reserved slots are handed out, each to one process. -/
structure Apart (cfg : TableConfig) (s : Processes α) : Prop where
  held : ∀ pid r records, (s.processes pid).pc.pending = some (r, records) →
    Held cfg r.idx (r.start + records.length) s.shared.index
  apart : ∀ pid r records, (s.processes pid).pc.pending = some (r, records) →
    Clear s r.idx r.start (r.start + records.length) pid

theorem apart_init : Apart cfg (Processes.init : Processes α) := ⟨nofun, nofun⟩

/-- What is granted on an entry that is not reset lies behind all slots handed out. -/
theorem Grants.behind {pid : ℕ} {r : Reservation} {records : List α} {lifetime stop : ℕ}
    (h : Grants cfg s a pid r records lifetime) (hb : Bounded cfg s.shared.index)
    (hheld : Held cfg r.idx stop s.shared.index) (hreset : ¬ Resets cfg r.idx s a) : stop ≤ r.start := by
  obtain ⟨-, -, ⟨-, -, hstart⟩ | ⟨-, hr⟩⟩ := h.cases hb
  · unfold Held at hheld
    omega
  · exact absurd hr hreset

/-- Slots stay clear of reservations as long as the entry is not reset. -/
theorem Clear.step {idx start stop but : ℕ} (h : Clear s idx start stop but) (hb : Bounded cfg s.shared.index)
    (hheld : Held cfg idx stop s.shared.index) (hreset : ¬ Resets cfg idx s a) :
    Clear (s.step cfg a) idx start stop but := by
  rintro pid r records hne hpending rfl
  obtain hold | ⟨lifetime, hgrant⟩ := pending_before hpending
  · exact h pid r records hne hold rfl
  · exact .inl (hgrant.behind hb hheld hreset)

theorem Apart.step (h : Apart cfg s) (hb : Bounded cfg s.shared.index) (hsettled : Settled cfg s a) :
    Apart cfg (s.step cfg a) := by
  constructor
  · intro pid r records hpending
    obtain hold | ⟨lifetime, hgrant⟩ := pending_before hpending
    · exact held_step hb (h.held pid r records hold) (hsettled pid r records hold)
    · have hroom := (hgrant.cases hb).2.1
      unfold Held
      omega
  · intro pid r records hpending
    obtain hold | ⟨lifetime, hgrant⟩ := pending_before hpending
    · exact (h.apart pid r records hold).step hb (h.held pid r records hold) (hsettled pid r records hold)
    · rintro pid' r' records' hne hpending' hidx
      obtain hold' | ⟨lifetime', hgrant'⟩ := pending_before hpending'
      · have hstop := h.held pid' r' records' hold'
        have hreset := hsettled pid' r' records' hold'
        rw [hidx] at hstop hreset
        exact .inr (hgrant.behind hb hstop hreset)
      · -- one process acts
        obtain ⟨op, hactor⟩ := hgrant.actor
        obtain ⟨op', hactor'⟩ := hgrant'.actor
        rw [hactor] at hactor'
        cases hactor'
        exact absurd rfl hne

end Steps

end DealsServer
