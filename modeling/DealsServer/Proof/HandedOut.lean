import DealsServer.Proof.LockedSections

/-!
# Slots handed out in any interleaving

* `changes_slots`: where a section hands out slots, and `changes_entry`: what becomes of an entry it does not reset.
* `Allotted.snoc`: slots of one entry are handed out behind each other, until a section resets the entry.
* `slots_apart`: statement by statement, for any number of processes.
-/

namespace DealsServer

open Semaphore StateMachine

variable {α : Type} {cfg : TableConfig} {x y : IndexState} {l : Section}

/-- Slots of an entry, from `start` on. -/
structure Slots where
  idx : ℕ
  start : ℕ
  count : ℕ
  deriving DecidableEq, Repr

namespace Section

/-- The slots that a section hands out. -/
def slots : Section → Option Slots
  | reserve _ _ count _ r => some ⟨r.idx, r.start, count⟩
  | _ => none

/-- The section clears the entry, or begins it anew. -/
def Resets (idx : ℕ) : Section → Prop
  | reserve _ _ _ _ r => r.idx = idx ∧ r.type ≠ .current
  | release _ first last => first ≤ idx ∧ idx < last
  | cleanup _ last => idx < last

instance (idx : ℕ) (l : Section) : Decidable (l.Resets idx) := by
  cases l <;> unfold Resets <;> infer_instance

end Section

/-! ## One section -/

theorem changes_bounded (h : l.Changes cfg x y) (hb : Bounded cfg x.index) : Bounded cfg y.index := by
  cases l with
  | reserve now memLow count lifetime r =>
    obtain ⟨err, hres, -⟩ | ⟨r', v', hres, hv⟩ := reserve_cases x.view hb now count lifetime memLow
    · cases hres.symm.trans h
    · cases hres.symm.trans h
      exact hv.bounded hb
  | release now first last => exact h.1.clears.bounded hb
  | cleanup failed last => exact h.1.clears.bounded hb

/-- **The slots that a section hands out** are slots of the page, and the rest of the page stays available. -/
theorem changes_slots (h : l.Changes cfg x y) (hb : Bounded cfg x.index) {s : Slots} (hs : l.slots = some s) :
    s.idx < cfg.tableMaxPages ∧
      s.start + s.count + (y.index s.idx).pageElementsAvailable = cfg.maxElementsInPage := by
  cases l with
  | reserve now memLow count lifetime r =>
    cases hs
    obtain ⟨err, hres, -⟩ | ⟨r', v', hres, hv⟩ := reserve_cases x.view hb now count lifetime memLow
    · cases hres.symm.trans h
    · cases hres.symm.trans h
      exact ⟨hv.idx_lt, hv.room⟩
  | release now first last => cases hs
  | cleanup failed last => cases hs

/-- **An entry that is not reset**: it stays as it is, or slots are handed out where its free slots begin. -/
theorem changes_entry (h : l.Changes cfg x y) (hb : Bounded cfg x.index) {idx : ℕ} (hreset : ¬ l.Resets idx) :
    (y.index idx = x.index idx ∧ ∀ s, l.slots = some s → s.idx ≠ idx) ∨
      ∃ s, l.slots = some s ∧ s.idx = idx ∧ s.start + (x.index idx).pageElementsAvailable = cfg.maxElementsInPage := by
  cases l with
  | reserve now memLow count lifetime r =>
    obtain ⟨err, hres, -⟩ | ⟨r', v', hres, hv⟩ := reserve_cases x.view hb now count lifetime memLow
    · cases hres.symm.trans h
    cases hres.symm.trans h
    by_cases hidx : r.idx = idx
    · subst hidx
      obtain hcont | hrest := hv.outcome
      · exact .inr ⟨_, rfl, rfl, hcont.start_eq⟩
      · -- an entry that begins anew is reset
        refine absurd ⟨rfl, ?_⟩ hreset
        obtain ⟨htype, -⟩ | ⟨htype, -⟩ | ⟨htype, -⟩ := hrest.kind
        all_goals rw [htype]; exact nofun
    · refine .inl ⟨hv.others idx (Ne.symm hidx), ?_⟩
      rintro s hs
      cases hs
      exact hidx
  | release now first last =>
    have hindex := h.1.clears.index_eq idx
    have hout : ¬ (first ≤ idx ∧ idx < last) := hreset
    rw [if_neg hout] at hindex
    exact .inl ⟨hindex, nofun⟩
  | cleanup failed last =>
    have hindex := h.1.clears.index_eq idx
    rw [if_neg fun hin => hreset hin.2] at hindex
    exact .inl ⟨hindex, nofun⟩

/-! ## A run of sections -/

/-- Slots are handed out within the pages, and those of one entry behind each other, until a section resets it. -/
structure SlotsApart (cfg : TableConfig) (labels : List Section) : Prop where
  fits : ∀ l ∈ labels, ∀ s, l.slots = some s → s.idx < cfg.tableMaxPages ∧ s.start + s.count ≤ cfg.maxElementsInPage
  behind : ∀ before l between l' after s s', labels = before ++ l :: (between ++ l' :: after) → l.slots = some s →
    l'.slots = some s' → s'.idx = s.idx → (∀ k ∈ between, ¬ k.Resets s.idx) → ¬ l'.Resets s.idx →
      s.start + s.count ≤ s'.start

/-- The invariant: slots that were handed out since the last reset of their entry are not available. -/
structure Allotted (cfg : TableConfig) (labels : List Section) (y : IndexState) : Prop where
  bounded : Bounded cfg y.index
  apart : SlotsApart cfg labels
  room : ∀ before l after s, labels = before ++ l :: after → l.slots = some s → (∀ k ∈ after, ¬ k.Resets s.idx) →
    s.start + s.count + (y.index s.idx).pageElementsAvailable ≤ cfg.maxElementsInPage

theorem allotted_nil (hb : Bounded cfg x.index) : Allotted cfg [] x where
  bounded := hb
  apart := ⟨nofun, fun before l between l' after s s' h => by simp at h⟩
  room before l after s h := by simp at h

/-- A list with a last element, taken apart somewhere. -/
theorem append_cons_eq_snoc {labels before after : List Section} {l last : Section}
    (h : labels ++ [last] = before ++ l :: after) :
    (before = labels ∧ l = last ∧ after = []) ∨
      ∃ after', after = after' ++ [last] ∧ labels = before ++ l :: after' := by
  rcases List.eq_nil_or_concat' after with rfl | ⟨after', last', rfl⟩
  · obtain ⟨hlabels, hlast⟩ := List.append_inj' h rfl
    cases hlast
    exact .inl ⟨hlabels.symm, rfl, rfl⟩
  · rw [← List.cons_append, ← List.append_assoc] at h
    obtain ⟨hlabels, hlast⟩ := List.append_inj' h rfl
    cases hlast
    exact .inr ⟨after', rfl, hlabels⟩

/-- **One more section.** -/
theorem Allotted.snoc {labels : List Section} (h : Allotted cfg labels x) (hl : l.Changes cfg x y) :
    Allotted cfg (labels ++ [l]) y where
  bounded := changes_bounded hl h.bounded
  apart := by
    refine ⟨fun k hk s hs => ?_, fun before k between k' after s s' hlabels hs hs' hidx hnone hlast => ?_⟩
    · rcases List.mem_append.1 hk with hk | hk
      · exact h.apart.fits k hk s hs
      · rw [List.mem_singleton.1 hk] at hs
        obtain ⟨hlt, hroom⟩ := changes_slots hl h.bounded hs
        exact ⟨hlt, by omega⟩
    · -- the second section is the last one, or both were there before
      rw [← List.cons_append, ← List.append_assoc] at hlabels
      obtain ⟨hbefore, rfl, rfl⟩ | ⟨after', rfl, hbefore⟩ := append_cons_eq_snoc hlabels
      · have hroom := h.room before k between s hbefore.symm hs hnone
        obtain ⟨-, hne⟩ | ⟨s'', hs'', hidx', hstart⟩ := changes_entry hl h.bounded hlast
        · exact absurd hidx (hne s' hs')
        · rw [hs'] at hs''
          cases hs''
          omega
      · refine h.apart.behind before k between k' after' s s' ?_ hs hs' hidx hnone hlast
        rw [hbefore, List.append_assoc, List.cons_append]
  room before k after s hlabels hs hnone := by
    obtain ⟨rfl, rfl, rfl⟩ | ⟨after', rfl, rfl⟩ := append_cons_eq_snoc hlabels
    · exact (changes_slots hl h.bounded hs).2.le
    · have hroom := h.room before k after' s rfl hs fun j hj => hnone j (List.mem_append_left _ hj)
      have hlast : ¬ l.Resets s.idx := hnone l (List.mem_append_right _ List.mem_cons_self)
      obtain ⟨hsame, -⟩ | ⟨s', hs', hidx, hstart⟩ := changes_entry hl h.bounded hlast
      · rwa [hsame]
      · have hrest := (changes_slots hl h.bounded hs').2
        rw [hidx] at hrest
        omega

theorem allotted_serial {labels : List Section} (hb : Bounded cfg x.index)
    (h : Serial (Section.Changes cfg) x labels y) : Allotted cfg labels y := by
  induction h with
  | nil => exact allotted_nil hb
  | snoc _ hl ih => exact ih.snoc hl

/-- **Slots are handed out once**, statement by statement and in every interleaving of the calls of any number of
processes: the sections that explain a run hand out slots within the pages, and those of one entry behind each other,
as long as no section resets the entry; and when the lock is free, the index offers none of them again. -/
theorem slots_apart [Inhabited α] (cfg : TableConfig) (n : ℕ) (memory : TableMemory α) (own : Fin n → TableLocal)
    (hb : Bounded cfg memory.memory.index) (moves : List (TableMove α n)) (hquiet : ∀ m ∈ moves, m.input.1 = none) :
    ∃ log y, PlacingSystem.Explained cfg memory own moves log ∧ Allotted cfg (log.map Prod.snd) y ∧
      ((PlacingSystem.after cfg memory own moves).value cfg.tableName = 1 →
        IndexState.ofMemory (PlacingSystem.after cfg memory own moves).shared = y) := by
  have hmeets (m : TableMove α n) (hm : m ∈ moves ++ []) : (guardedIndex α cfg).meets m.input :=
    hquiet m (by simpa using hm)
  obtain ⟨log, -, -, hexplains, -⟩ :=
    serial_run (inSections_placing cfg) memory (unlocked_start cfg own) moves [] hmeets
  obtain ⟨y, hserial, hfree⟩ := hexplains.part
  exact ⟨log, y, hexplains, allotted_serial hb hserial, hfree⟩

/-- Two processes share the first page of an empty table. -/
theorem slots_apart_adds :
    ∃ log y, PlacingSystem.Explained smallTable ⟨.init, 0⟩ (fun _ => .init) (addsInTurn 40) log ∧
      Allotted smallTable (log.map Prod.snd) y ∧
      ((PlacingSystem.after smallTable ⟨.init, 0⟩ (fun _ => .init) (addsInTurn 40)).value smallTable.tableName = 1 →
        IndexState.ofMemory
          (PlacingSystem.after smallTable ⟨.init, 0⟩ (fun _ => .init) (addsInTurn 40)).shared = y) := by
  refine slots_apart smallTable 2 ⟨.init, 0⟩ (fun _ => .init) ?_ (addsInTurn 40) fun m hm => addsInTurn_quiet hm
  intro idx _ hused
  exact absurd hused (lt_irrefl 0)

end DealsServer
