import DealsServer.Lib.Serial
import DealsServer.Proof.Names
import DealsServer.Proof.TableLock

/-!
# Locked sections of the processes

The index of a table, its timer and `global_expire_at` belong to the lock of the table.

* `Spares`: code outside of sections does not write to them. It may look, as `processRecords` does, and see them half
  changed.
* `does_addScope`, `does_releaseScope`, `does_cleanupLoop`: what a section has done where it ends, by an exception too.
* `inSections_placing`: each of the four operations, with the place that `addRecord` returns.
* `placing_run`: these processes go through the states of `TableSystem`.
* `sections_serial`: any number of processes, in every interleaving.
-/

namespace DealsServer

open Semaphore StateMachine

variable {α β γ τ : Type}

/-! ## What the lock of a table protects -/

/-- The index of a table with its timer, and `global_expire_at`. -/
structure IndexState where
  index : ℕ → TablePageIndexElement
  expirationCheck : ℕ
  globalExpireAt : ℕ

namespace IndexState

/-- The part of the shared memory. -/
def ofMemory (m : TableMemory α) : IndexState := ⟨m.memory.index, m.memory.expirationCheck, m.globalExpireAt⟩

/-- An entry is written. -/
def setEntry (x : IndexState) (idx : ℕ) (record : TablePageIndexElement) : IndexState :=
  { x with index := Function.update x.index idx record }

@[simp] theorem setEntry_index (x : IndexState) (idx : ℕ) (record : TablePageIndexElement) :
    (x.setEntry idx record).index idx = record := Function.update_self ..

@[simp] theorem setEntry_setEntry (x : IndexState) (idx : ℕ) (record record' : TablePageIndexElement) :
    (x.setEntry idx record).setEntry idx record' = x.setEntry idx record' := by
  unfold setEntry
  rw [Function.update_idem]

/-- A page is taken: the oldest page raises `global_expire_at`. -/
def take (x : IndexState) (type : PageType) (idx : ℕ) : IndexState :=
  { x with
    globalExpireAt := if type = .oldest then max x.globalExpireAt (x.index idx).expireAt else x.globalExpireAt }

theorem take_of_ne (x : IndexState) {type : PageType} (idx : ℕ) (htype : type ≠ .oldest) : x.take type idx = x := by
  rw [take, if_neg htype]

/-- As a process sees it, without pages. -/
def view (x : IndexState) : View Unit :=
  ⟨{ SharedMemory.init with index := x.index, expirationCheck := x.expirationCheck }, x.globalExpireAt, .init⟩

end IndexState

/-- A locked section that changes the index: an `addRecord` that hands out slots, a release of the pages of the entries
from `first` up to `last`, and a `cleanup` of the entries below `last`. -/
inductive Section
  | reserve (now : ℕ) (memLow : Bool) (count lifetime : ℕ) (r : Reservation)
  | release (now first last : ℕ)
  | cleanup (failed : Bool) (last : ℕ)
  deriving DecidableEq, Repr

namespace Section

variable (cfg : TableConfig)

/-- What a section does to the index, as one step. -/
def Changes (x : IndexState) : Section → IndexState → Prop
  | reserve now memLow count lifetime r, x' => x.view.reserve cfg now memLow count lifetime = (.ok r, x'.view)
  | release now first last, x' =>
    Releases cfg x.view x'.view now first last ∧ x.expirationCheck ≤ now ∧
      x'.expirationCheck = (now + checkExpiredPagesIntervalSec) % 2 ^ 32
  | cleanup failed last, x' => CleansUp cfg x.view x'.view failed last ∧ x'.expirationCheck = x.expirationCheck

/-- The place that a section hands out. -/
def place : Section → Option Location
  | reserve _ _ count _ r => some ⟨cfg.pageName r.idx, r.start.toUInt32, count.toUInt32⟩
  | _ => none

end Section

/-- The index of a table under its lock. No statement is made to throw. -/
def guardedIndex (α : Type) (cfg : TableConfig) :
    Protected (TableMemory α) (Option Error × Meets) Bytes IndexState Section where
  part := IndexState.ofMemory
  name := cfg.tableName
  change := Section.Changes cfg
  meets i := i.1 = none

/-- Where a process stands with the lock of the table. -/
abbrev TableStand := Stand IndexState Section

variable {cfg : TableConfig}

/-! ## `CriticalSection` -/

namespace CriticalSection

/-- A lock is taken: that of the table begins a section, any other makes no difference. -/
def Taken (cfg : TableConfig) (name : Bytes) (b g : TableStand) : Prop :=
  if name = cfg.tableName then b.inside = none ∧ ∃ x, g = ⟨some (x, x), b.done⟩ else g = b

/-- A lock may be given back. -/
def Given (cfg : TableConfig) (name : Bytes) (g b : TableStand) : Prop :=
  if name = cfg.tableName then g.Completes (Section.Changes cfg) b else g = b

variable {name : Bytes} {b : TableStand}

/-- A call on the semaphore, and an exception if it fails. -/
theorem does_checked {I : TableStand → CriticalSection → Prop} {Q : Unit → TableStand → CriticalSection → Prop}
    {call : Bytes → LockCode α CriticalSection Bool} {err : Error}
    (hcall : ∀ cs, Does (guardedIndex α cfg) (fun g cs' => I g cs' ∧ cs' = cs) (call cs.name)
      (fun served g cs' => if served then Q () g cs' else I g cs') I) :
    Does (guardedIndex α cfg) I
      (do let cs ← Code.get; let served ← call cs.name; if served then pure () else Code.throw err) Q I := by
  refine does_bind (fun cs g cs' => I g cs' ∧ cs' = cs) (does_get fun g cs hcs => ⟨hcs, rfl⟩) fun cs => ?_
  refine does_bind (fun served g cs' => if served then Q () g cs' else I g cs') (hcall cs) fun served => ?_
  refine does_ite (fun hs => does_pure fun g cs' hcs => ?_) fun hs => does_throw fun g cs' hcs => ?_
  · rwa [if_pos hs] at hcs
  · rwa [if_neg hs] at hcs

/-- **`enter`**: what throws has not taken the semaphore. -/
theorem does_enter :
    Does (guardedIndex α cfg) (fun g cs => g = b ∧ cs = ⟨name, false⟩) (enter : LockCode α CriticalSection Unit)
      (fun _ g cs => Taken cfg name b g ∧ cs = ⟨name, true⟩) fun g cs => g = b ∧ cs = ⟨name, false⟩ := by
  refine does_bind (fun _ g cs => Taken cfg name b g ∧ cs = ⟨name, false⟩) ?_ fun _ => does_modify ?_
  · refine does_checked fun cs => does_wait (fun g cs' hcs => hcs.1) ?_
    rintro g cs' ⟨⟨rfl, rfl⟩, rfl⟩
    simp only [guardedIndex, Taken, if_true]
    split_ifs with hname
    · intro hnone x
      exact ⟨⟨hnone, x, rfl⟩, trivial⟩
    · exact ⟨trivial, trivial⟩
  · rintro g cs ⟨h, rfl⟩
    exact ⟨h, rfl⟩

/-- The release of a lock that may be given back. -/
theorem does_release :
    Does (guardedIndex α cfg) (fun g cs => Given cfg name g b ∧ cs = ⟨name, true⟩)
      (semaphoreRelease : LockCode α CriticalSection Unit) (fun _ g cs => g = b ∧ cs = ⟨name, true⟩)
      fun g cs => Given cfg name g b ∧ cs = ⟨name, true⟩ := by
  refine does_checked fun cs => does_post (fun g cs' hcs => hcs.1) ?_
  rintro g cs' ⟨⟨hgiven, rfl⟩, rfl⟩
  simp only [guardedIndex, Given, if_true] at hgiven ⊢
  split_ifs at hgiven ⊢ with hname
  · exact ⟨b, hgiven, rfl, trivial⟩
  · exact ⟨hgiven, trivial⟩

/-- The destructor, with the flag up. -/
theorem does_destroy :
    Does (guardedIndex α cfg) (fun g cs => Given cfg name g b ∧ cs = ⟨name, true⟩)
      (destroy : LockCode α CriticalSection Unit) (fun _ g cs => g = b ∧ cs = ⟨name, true⟩)
      fun g cs => Given cfg name g b ∧ cs = ⟨name, true⟩ := by
  refine does_bind (fun cs g cs' => (Given cfg name g b ∧ cs' = ⟨name, true⟩) ∧ cs = ⟨name, true⟩) ?_ fun cs => ?_
  · exact does_get fun g cs hcs => ⟨hcs, hcs.2⟩
  refine does_and ?_
  rintro rfl
  exact does_release

/-- The destructor does nothing with the flag down. -/
theorem does_destroy_down :
    Does (guardedIndex α cfg) (fun g cs => g = b ∧ cs = ⟨name, false⟩) (destroy : LockCode α CriticalSection Unit)
      (fun _ g cs => g = b ∧ cs = ⟨name, false⟩) fun g cs => g = b ∧ cs = ⟨name, false⟩ := by
  refine does_bind (fun cs g cs' => (g = b ∧ cs' = ⟨name, false⟩) ∧ cs = ⟨name, false⟩) ?_ fun cs => ?_
  · exact does_get fun g cs hcs => ⟨hcs, hcs.2⟩
  refine does_and ?_
  rintro rfl
  exact does_pure fun g cs hcs => hcs

theorem does_exit :
    Does (guardedIndex α cfg) (fun g cs => Given cfg name g b ∧ cs = ⟨name, true⟩)
      (exit : LockCode α CriticalSection Unit) (fun _ g cs => g = b ∧ cs = ⟨name, false⟩)
      fun g cs => Given cfg name g b ∧ cs = ⟨name, true⟩ := by
  rw [exit_eq]
  refine does_bind _ does_destroy fun _ => does_modify ?_
  rintro g cs ⟨h, rfl⟩
  exact ⟨h, rfl⟩

/-- A second `exit` does nothing. -/
theorem does_exit_down :
    Does (guardedIndex α cfg) (fun g cs => g = b ∧ cs = ⟨name, false⟩) (exit : LockCode α CriticalSection Unit)
      (fun _ g cs => g = b ∧ cs = ⟨name, false⟩) fun g cs => g = b ∧ cs = ⟨name, false⟩ := by
  rw [exit_eq]
  refine does_bind _ does_destroy_down fun _ => does_modify ?_
  rintro g cs ⟨h, rfl⟩
  exact ⟨h, rfl⟩

end CriticalSection

/-! ## Code that leaves the index alone -/

/-- What holds of where a process stands, and of the lock of its table. -/
abbrev OfStand (I : TableStand → CriticalSection → Prop) (g : TableStand) (table : Table) : Prop := I g table.lock

/-- The code does not write to the index, and does no more to the lock of the table than take and give it back. -/
def Spares (cfg : TableConfig) (m : LockCode α Table β) : Prop :=
  ∀ I : TableStand → CriticalSection → Prop, Does (guardedIndex α cfg) (OfStand I) m (fun _ => OfStand I) (OfStand I)

theorem Spares.does {m : LockCode α Table β} {I : TableStand → CriticalSection → Prop} {E : TableStand → Table → Prop}
    (hm : Spares cfg m) (hE : ∀ g table, OfStand I g table → E g table) :
    Does (guardedIndex α cfg) (OfStand I) m (fun _ => OfStand I) E :=
  (hm I).throwing hE

theorem acted_same {g : TableStand} {s s' : TableMemory α} (hs : (guardedIndex α cfg).Sees g s)
    (hsame : IndexState.ofMemory s' = IndexState.ofMemory s) : (guardedIndex α cfg).acted g s' = g := by
  rcases g with ⟨_ | ⟨x, y⟩, done⟩
  · rfl
  · have hy : IndexState.ofMemory s = y := hs (x, y) rfl
    simp only [Protected.acted, guardedIndex, Option.map_some, hsame, hy]

theorem spares_stmt {f : Meets → TableMemory α → Table → Except Error β × TableMemory α × Table}
    (hpart : ∀ i s own, IndexState.ofMemory (f i s own).2.1 = IndexState.ofMemory s)
    (hlock : ∀ i s own, (f i s own).2.2.lock = own.lock) : Spares cfg (Code.stmt f) := by
  intro I
  refine does_stmt (fun i hi => hi) fun i s g own hI hs => ?_
  have hI' : OfStand I g (f i s own).2.2 := by rwa [OfStand, hlock]
  refine ⟨fun _ => hpart i s own, ?_⟩
  rw [acted_same hs (hpart i s own)]
  exact ending_same hI' _

theorem spares_look (f : Meets → TableMemory α → β) : Spares cfg (look f : LockCode α Table β) :=
  spares_stmt (fun _ _ _ => rfl) fun _ _ _ => rfl

theorem spares_write {f : SharedMemory α → SharedMemory α}
    (hf : ∀ memory, (f memory).index = memory.index ∧ (f memory).expirationCheck = memory.expirationCheck) :
    Spares cfg (write f : LockCode α Table Unit) := by
  refine spares_stmt (fun i s own => ?_) fun _ _ _ => rfl
  show IndexState.ofMemory { s with memory := f s.memory } = IndexState.ofMemory s
  unfold IndexState.ofMemory
  rw [(hf s.memory).1, (hf s.memory).2]

theorem spares_pure (a : β) : Spares cfg (pure a : LockCode α Table β) := fun _ => does_pure fun _ _ h => h

theorem spares_throw (e : Error) : Spares cfg (Code.throw e : LockCode α Table β) :=
  fun _ => does_throw fun _ _ h => h

theorem spares_get : Spares cfg (Code.get : LockCode α Table Table) := fun _ => does_get fun _ _ h => h

theorem spares_modify {f : Table → Table} (hf : ∀ table, (f table).lock = table.lock) :
    Spares cfg (Code.modify f : LockCode α Table Unit) := by
  intro I
  refine does_modify fun g table hI => ?_
  rwa [OfStand, hf]

theorem spares_bind {m : LockCode α Table β} {f : β → LockCode α Table γ} (hm : Spares cfg m)
    (hf : ∀ a, Spares cfg (f a)) : Spares cfg (m >>= f) := fun I => does_bind _ (hm I) fun a => hf a I

theorem spares_ite {c : Prop} [Decidable c] {m m' : LockCode α Table β} (h : Spares cfg m) (h' : Spares cfg m') :
    Spares cfg (if c then m else m') := fun I => does_ite (fun _ => h I) fun _ => h' I

section Pages

variable [Inhabited α]

theorem mapPage_part (sh : SharedMemory α) (name : Bytes) (res : OpenResult) :
    (sh.mapPage name res).2.index = sh.index ∧ (sh.mapPage name res).2.expirationCheck = sh.expirationCheck := by
  unfold SharedMemory.mapPage
  by_cases hopen : res = .cannotOpen
  · rw [if_pos hopen]
    exact ⟨rfl, rfl⟩
  rw [if_neg hopen]
  rcases sh.names name with _ | o
  · cases res <;> exact ⟨rfl, rfl⟩
  · dsimp only
    split_ifs <;> exact ⟨rfl, rfl⟩

/-- Where a process stands while a page is opened with its lock. -/
def PageTaken (cfg : TableConfig) (page : Bytes) (table : Table) (b g : TableStand) (x : Table × CriticalSection) :
    Prop :=
  x.1 = table ∧
    (CriticalSection.Taken cfg page b g ∧ x.2 = ⟨page, true⟩ ∨ g = b ∧ x.2 = ⟨page, false⟩)

/-- The lock of a page can be given back as it was taken. -/
theorem given_of_taken {page : Bytes} {b g : TableStand} (h : CriticalSection.Taken cfg page b g) :
    CriticalSection.Given cfg page g b := by
  unfold CriticalSection.Taken at h
  unfold CriticalSection.Given
  split_ifs at h ⊢
  · obtain ⟨hnone, x, rfl⟩ := h
    exact ⟨x, x, rfl, hnone, .inl ⟨rfl, rfl⟩⟩
  · exact h

omit [Inhabited α] in
/-- The destructor of the lock of a page. -/
theorem does_closePage {page : Bytes} {table : Table} {b : TableStand} {I : TableStand → CriticalSection → Prop}
    (hI : OfStand I b table) :
    Does (guardedIndex α cfg) (PageTaken cfg page table b)
      (Code.zoom Prod.snd (fun cslock x => (x.1, cslock)) CriticalSection.destroy : LockCode α _ Unit)
      (fun _ g x => OfStand I g x.1) fun _ _ => True := by
  refine does_zoom fun x => ?_
  have hdestroy : Does (guardedIndex α cfg)
      (fun g cs => (CriticalSection.Given cfg page g b ∧ cs = ⟨page, true⟩) ∨ (g = b ∧ cs = ⟨page, false⟩))
      (CriticalSection.destroy : LockCode α _ Unit) (fun _ g _ => g = b) fun _ _ => True :=
    does_or (CriticalSection.does_destroy.mono (fun _ _ h => h) (fun _ _ _ h => h.1) fun _ _ _ => trivial)
      (CriticalSection.does_destroy_down.mono (fun _ _ h => h) (fun _ _ _ h => h.1) fun _ _ _ => trivial)
  rintro g cs ⟨rfl, htable, hcs⟩
  refine (hdestroy g x.2 (hcs.imp_left fun h => ⟨given_of_taken h.1, h.2⟩)).mono (Ending.mono ?_ fun _ _ _ => trivial)
  rintro - g - rfl
  rwa [htable]

/-- A page is mapped. -/
theorem does_mapPage (page name : Bytes) (table : Table) (b : TableStand) :
    Does (guardedIndex α cfg) (PageTaken cfg page table b) (mapPage name : LockCode α (Table × CriticalSection) ℕ)
      (fun _ => PageTaken cfg page table b) (PageTaken cfg page table b) := by
  refine does_stmt (fun i hi => hi) fun i s g x hx hs => ?_
  have hpart : IndexState.ofMemory { s with memory := (s.memory.mapPage name (i.opens name)).2 } =
      IndexState.ofMemory s := by
    unfold IndexState.ofMemory
    rw [(mapPage_part ..).1, (mapPage_part ..).2]
  exact ⟨fun _ => hpart, ending_same (by rwa [acted_same hs hpart]) _⟩

/-- **To open a page** takes and gives back the lock of the page, which may have any name. -/
theorem spares_page (page : Bytes) : Spares cfg (sharedMemoryPage page : LockCode α Table ℕ) := by
  refine spares_ite (spares_throw _) (spares_ite (spares_throw _) ?_)
  refine spares_bind (spares_stmt (fun _ _ _ => rfl) fun _ _ _ => rfl) fun _ => ?_
  intro I
  refine does_of_eq fun b table hI => does_withObject ?_
  refine does_guarded (fun _ => PageTaken cfg page table b) (PageTaken cfg page table b) ?_
    (fun _ => does_closePage hI) (does_closePage hI)
  refine does_bind (fun _ => PageTaken cfg page table b) (does_zoom fun x => ?_) fun _ =>
    does_mapPage page page table b
  rintro g cs ⟨rfl, ⟨rfl, rfl⟩, hcs⟩
  refine (CriticalSection.does_enter g x.2 ⟨rfl, hcs⟩).mono (Ending.mono ?_ ?_)
  · exact fun _ _ _ h => ⟨rfl, .inl h⟩
  · exact fun _ _ h => ⟨rfl, .inr h⟩

end Pages

namespace Table

theorem spares_linkedPages (pages : List (Bytes × ℕ)) :
    Spares cfg (linkedPages pages : LockCode α Table (List (Bytes × ℕ))) := by
  induction pages with
  | nil => exact spares_pure _
  | cons page pages ih =>
    refine spares_bind (spares_look _) fun unlinked => ?_
    exact spares_bind ih fun rest => spares_pure _

theorem spares_dropUnlinked : Spares cfg (dropUnlinked : LockCode α Table Unit) := by
  refine spares_bind spares_get fun table => spares_bind (spares_linkedPages _) fun pages => ?_
  exact spares_modify fun _ => rfl

theorem spares_selectLoop (now k idx : ℕ) : Spares cfg (selectLoop now k idx : LockCode α Table (List ℕ)) := by
  induction k generalizing idx with
  | zero => exact spares_pure _
  | succ k ih =>
    refine spares_bind (spares_look _) fun record => spares_bind (spares_look _) fun globalExpireAt => ?_
    exact spares_ite (spares_pure _) (spares_bind (ih _) fun rest => spares_pure _)

theorem spares_elementLoop (page k i : ℕ) : Spares cfg (elementLoop page k i : LockCode α Table (List α)) := by
  induction k generalizing i with
  | zero => exact spares_pure _
  | succ k ih =>
    refine spares_bind (spares_look _) fun element => ?_
    exact spares_bind (ih _) fun rest => spares_pure _

variable [Inhabited α]

theorem spares_getPageByName (page : Bytes) : Spares cfg (getPageByName page : LockCode α Table ℕ) := by
  refine spares_bind spares_get fun table => ?_
  split
  · exact spares_pure _
  · refine spares_bind (spares_page page) fun o => ?_
    exact spares_bind (spares_modify fun _ => rfl) fun _ => spares_pure _

theorem spares_scanLoop (cfg' : TableConfig) (records : List ℕ) :
    Spares cfg (scanLoop cfg' records : LockCode α Table (List α)) := by
  induction records with
  | nil => exact spares_pure _
  | cons idx records ih =>
    refine spares_bind (spares_look _) fun record => spares_bind (spares_getPageByName _) fun page => ?_
    refine spares_bind (spares_look _) fun record => spares_bind (spares_elementLoop _ _ _) fun elements => ?_
    exact spares_bind ih fun rest => spares_pure _

end Table

/-! ## Inside of a section -/

/-- The process is in no section, and its call was handed out `places`. -/
def OutOfSection (cfg : TableConfig) (places : List Location) (g : TableStand) (cs : CriticalSection) : Prop :=
  g.inside = none ∧ g.done.filterMap (Section.place cfg) = places ∧ cs = ⟨cfg.tableName, false⟩

/-- The process is in a section, in which it has come from `x` to `y`. -/
def InSection (cfg : TableConfig) (places : List Location) (x y : IndexState) (g : TableStand) (cs : CriticalSection) :
    Prop :=
  g.inside = some (x, y) ∧ g.done.filterMap (Section.place cfg) = places ∧ cs = ⟨cfg.tableName, true⟩

/-- The process is in a section that may end here, and its call is then handed out `places`. -/
def MayExit (cfg : TableConfig) (places : List Location) (g : TableStand) (cs : CriticalSection) : Prop :=
  (∃ b, g.Completes (Section.Changes cfg) b ∧ b.done.filterMap (Section.place cfg) = places) ∧
    cs = ⟨cfg.tableName, true⟩

/-- The process has left its section, or may leave it: where an exception may be thrown. -/
def MayThrow (cfg : TableConfig) (g : TableStand) (cs : CriticalSection) : Prop :=
  ∃ places, MayExit cfg places g cs ∨ OutOfSection cfg places g cs

/-- An exception has left the scope of the lock. -/
def AfterThrow (cfg : TableConfig) (g : TableStand) (cs : CriticalSection) : Prop :=
  ∃ places, OutOfSection cfg places g cs

section Ends

variable {x y : IndexState} {places : List Location} {I : TableStand → Table → Prop}

/-- A section that has changed nothing may end. -/
theorem InSection.mayExit {g : TableStand} {cs : CriticalSection} (h : InSection cfg places x x g cs) :
    MayExit cfg places g cs :=
  ⟨⟨⟨none, g.done⟩, ⟨x, x, h.1, rfl, .inl ⟨rfl, rfl⟩⟩, h.2.1⟩, h.2.2⟩

/-- A section may end after a change that is allowed. -/
theorem InSection.mayExit_of_changes {g : TableStand} {cs : CriticalSection} {l : Section}
    (h : InSection cfg places x y g cs) (hl : l.Changes cfg x y) :
    MayExit cfg (places ++ (l.place cfg).toList) g cs := by
  refine ⟨⟨⟨none, g.done ++ [l]⟩, ⟨x, y, h.1, rfl, .inr ⟨l, hl, rfl⟩⟩, ?_⟩, h.2.2⟩
  rw [List.filterMap_append, h.2.1]
  cases hplace : l.place cfg <;> simp [hplace]

/-- A release or a cleanup hands out nothing. -/
theorem InSection.mayExit_of_clears {g : TableStand} {cs : CriticalSection} {l : Section}
    (h : InSection cfg places x y g cs) (hl : l.Changes cfg x y) (hplace : l.place cfg = none) :
    MayExit cfg places g cs := by
  have hexit := h.mayExit_of_changes hl
  rwa [hplace, Option.toList_none, List.append_nil] at hexit

theorem does_onLock {P E : TableStand → CriticalSection → Prop} {Q : β → TableStand → CriticalSection → Prop}
    {m : LockCode α CriticalSection β} (hm : Does (guardedIndex α cfg) P m Q E) :
    Does (guardedIndex α cfg) (OfStand P) (Code.zoom Table.lock (fun cs table => { table with lock := cs }) m)
      (fun a => OfStand (Q a)) (OfStand E) := by
  refine does_zoom fun table => hm.mono ?_ (fun _ _ _ h => h) fun _ _ h => h
  rintro g cs ⟨rfl, hcs⟩
  exact hcs

/-- **`exit`** of a section that may end. -/
theorem does_exitSection :
    Does (guardedIndex α cfg) (OfStand (MayExit cfg places)) Table.exit (fun _ => OfStand (OutOfSection cfg places))
      (OfStand (MayExit cfg places)) := by
  refine does_onLock (does_of_eq ?_)
  rintro g cs ⟨⟨b, hb, hplaces⟩, rfl⟩
  have hgiven (g' : TableStand) :
      CriticalSection.Given cfg cfg.tableName g' b ↔ g'.Completes (Section.Changes cfg) b := by
    unfold CriticalSection.Given
    rw [if_pos rfl]
  refine (@CriticalSection.does_exit α cfg cfg.tableName b).mono ?_ ?_ ?_
  · rintro g' cs ⟨rfl, rfl⟩
    exact ⟨(hgiven _).2 hb, rfl⟩
  · rintro - g' cs ⟨rfl, rfl⟩
    obtain ⟨-, -, -, hout, -⟩ := hb
    exact ⟨hout, hplaces, rfl⟩
  · rintro g' cs ⟨hgiven', rfl⟩
    exact ⟨⟨b, (hgiven g').1 hgiven', hplaces⟩, rfl⟩

/-- A second `exit` does nothing. -/
theorem does_exitAgain :
    Does (guardedIndex α cfg) (OfStand (OutOfSection cfg places)) Table.exit
      (fun _ => OfStand (OutOfSection cfg places)) (OfStand (OutOfSection cfg places)) := by
  refine does_onLock (does_of_eq ?_)
  rintro b cs ⟨hout, hplaces, rfl⟩
  refine CriticalSection.does_exit_down.mono (fun _ _ h => h) ?_ ?_
  · rintro - g cs ⟨rfl, rfl⟩
    exact ⟨hout, hplaces, rfl⟩
  · rintro g cs ⟨rfl, rfl⟩
    exact ⟨hout, hplaces, rfl⟩

/-- **The scope of an `AutoCloser`**: the section ends on each way out. -/
theorem does_autoClosed {m : LockCode α Table β} {P : β → List Location}
    (hm : Does (guardedIndex α cfg) I m (fun a => OfStand (OutOfSection cfg (P a))) (OfStand (MayThrow cfg))) :
    Does (guardedIndex α cfg) I (Table.autoClosed m) (fun a => OfStand (OutOfSection cfg (P a)))
      (OfStand (AfterThrow cfg)) := by
  refine does_guarded _ _ hm (fun a => ?_) (does_exists fun places => does_or ?_ ?_)
  · exact does_exitAgain.throwing fun _ _ _ => trivial
  · exact does_exitSection.mono (fun _ _ h => h) (fun _ _ _ h => ⟨places, h⟩) fun _ _ _ => trivial
  · exact does_exitAgain.mono (fun _ _ h => h) (fun _ _ _ h => ⟨places, h⟩) fun _ _ _ => trivial

/-- **`enter`** begins a section. -/
theorem does_enterSection :
    Does (guardedIndex α cfg) (OfStand (OutOfSection cfg places)) Table.enter
      (fun _ => OfStand fun g cs => ∃ x, InSection cfg places x x g cs) (OfStand (OutOfSection cfg places)) := by
  refine does_onLock (does_of_eq ?_)
  rintro b cs ⟨hout, hplaces, rfl⟩
  refine CriticalSection.does_enter.mono (fun _ _ h => h) ?_ ?_
  · rintro - g cs ⟨htaken, rfl⟩
    unfold CriticalSection.Taken at htaken
    rw [if_pos rfl] at htaken
    obtain ⟨-, x, rfl⟩ := htaken
    exact ⟨x, rfl, hplaces, rfl⟩
  · rintro g cs ⟨rfl, rfl⟩
    exact ⟨hout, hplaces, rfl⟩

/-- `enter` and the scope of an `AutoCloser`. -/
theorem does_entered {m : LockCode α Table β} {P : β → List Location}
    (hm : ∀ x, Does (guardedIndex α cfg) (OfStand (InSection cfg places x x)) m
      (fun a => OfStand (OutOfSection cfg (P a))) (OfStand (MayThrow cfg))) :
    Does (guardedIndex α cfg) (OfStand (OutOfSection cfg places)) (do Table.enter; Table.autoClosed m)
      (fun a => OfStand (OutOfSection cfg (P a))) (OfStand (AfterThrow cfg)) := by
  refine does_bind _ ?_ fun _ => does_autoClosed (does_exists hm)
  exact does_enterSection.throwing fun _ _ h => ⟨places, h⟩

/-- What is left of a section that may end: `exit`, and code that leaves the index alone. -/
theorem does_ended {f : Unit → LockCode α Table β} (hf : ∀ u, Spares cfg (f u)) :
    Does (guardedIndex α cfg) (OfStand (MayExit cfg places)) (Table.exit >>= f)
      (fun _ => OfStand (OutOfSection cfg places)) (OfStand (MayThrow cfg)) := by
  refine does_bind (fun _ => OfStand (OutOfSection cfg places)) ?_ fun u => ?_
  · exact does_exitSection.throwing fun _ _ h => ⟨places, .inl h⟩
  · exact (hf u).does fun _ _ h => ⟨places, .inr h⟩

end Ends

section Inside

variable {x y y' : IndexState} {places : List Location} {E : TableStand → Table → Prop}

/-- What a statement sees of the index. -/
theorem does_look {f : Meets → TableMemory α → β} {b : β} (hf : ∀ i s, IndexState.ofMemory s = y → f i s = b) :
    Does (guardedIndex α cfg) (OfStand (InSection cfg places x y)) (look f : LockCode α Table β)
      (fun a g table => OfStand (InSection cfg places x y) g table ∧ a = b) E := by
  refine does_stmt (fun i hi => hi) fun i s g table hin hs => ⟨fun _ => rfl, ?_⟩
  rw [acted_same hs rfl]
  exact ⟨hin, hf i s (hs _ hin.1)⟩

/-- What a statement does to the index. -/
theorem does_change {f : Meets → TableMemory α → TableMemory α}
    (hf : ∀ i s, IndexState.ofMemory s = y → IndexState.ofMemory (f i s) = y') :
    Does (guardedIndex α cfg) (OfStand (InSection cfg places x y))
      (Code.stmt fun i s own => (.ok (), f i s, own) : LockCode α Table Unit)
      (fun _ => OfStand (InSection cfg places x y')) E := by
  refine does_stmt (fun i hi => hi) fun i s g table hin hs => ⟨fun hnone => ?_, ?_⟩
  · rw [hin.1] at hnone
    cases hnone
  · refine ⟨?_, hin.2⟩
    have hy : (guardedIndex α cfg).part (f i s) = y' := hf i s (hs _ hin.1)
    simp only [Protected.acted, hin.1, Option.map_some, hy]

theorem does_write {f : SharedMemory α → SharedMemory α}
    (hf : ∀ s, IndexState.ofMemory s = y → IndexState.ofMemory { s with memory := f s.memory } = y') :
    Does (guardedIndex α cfg) (OfStand (InSection cfg places x y)) (write f : LockCode α Table Unit)
      (fun _ => OfStand (InSection cfg places x y')) E :=
  does_change fun _ => hf

/-- An entry is written, from what it was. -/
theorem does_setEntry (idx : ℕ) (f : TablePageIndexElement → TablePageIndexElement) :
    Does (guardedIndex α cfg) (OfStand (InSection cfg places x y))
      (write fun memory => memory.setEntry idx (f (memory.index idx)) : LockCode α Table Unit)
      (fun _ => OfStand (InSection cfg places x (y.setEntry idx (f (y.index idx))))) E :=
  does_write fun s hs => by rw [← hs]; rfl

theorem does_entry (idx : ℕ) :
    Does (guardedIndex α cfg) (OfStand (InSection cfg places x y)) (Table.entry idx)
      (fun record g table => OfStand (InSection cfg places x y) g table ∧ record = y.index idx) E :=
  does_look fun _ _ hs => by rw [← hs]; rfl

/-! ### `addRecord` -/

/-- The loop of `addRecord` finds the page that the index has. -/
theorem does_chooseLoop (now count k idx expireMin minIdx : ℕ) :
    Does (guardedIndex α cfg) (OfStand (InSection cfg places x y)) (Table.chooseLoop now count k idx expireMin minIdx)
      (fun r g table => OfStand (InSection cfg places x y) g table ∧
        r = choosePage y.index now count k idx expireMin minIdx) E := by
  induction k generalizing idx expireMin minIdx with
  | zero => exact does_pure fun g table h => ⟨h, rfl⟩
  | succ k ih =>
    refine does_bind _ (does_entry idx) fun record => does_and ?_
    rintro rfl
    unfold choosePage
    dsimp only
    rcases (if (y.index idx).expireAt > 0 ∧ expireMin > (y.index idx).expireAt then ((y.index idx).expireAt, idx)
      else (expireMin, minIdx)) with ⟨e, m⟩
    dsimp only
    split_ifs with hexpired hroom hunused
    · exact does_pure fun g table h => ⟨h, rfl⟩
    · exact does_pure fun g table h => ⟨h, rfl⟩
    · exact does_pure fun g table h => ⟨h, rfl⟩
    · exact ih _ _ _

/-- The page that is taken, as `isMemLow` answers. -/
theorem does_takePage {type : PageType} (idx minIdx : ℕ) (htype : type ≠ .oldest) :
    Does (guardedIndex α cfg) (OfStand (InSection cfg places x y)) (Table.takePage type idx minIdx)
      (fun r g table => ∃ memLow : Bool, OfStand (InSection cfg places x (y.take r.1 r.2)) g table ∧
        r = if type = .new ∧ memLow then (.oldest, minIdx) else (type, idx)) E := by
  have hkept : y.take type idx = y := y.take_of_ne idx htype
  refine does_ite (fun hnew => ?_) fun hnot => does_pure fun g table h => ?_
  · refine does_bind (fun _ => OfStand (InSection cfg places x y)) ?_ fun memLow =>
      does_ite (fun hlow => ?_) fun hlow => ?_
    · refine does_stmt (fun i hi => hi) fun i s g table hin hs => ⟨fun _ => rfl, ?_⟩
      rwa [acted_same hs rfl]
    · refine does_bind _ (does_entry minIdx) fun record => does_and ?_
      rintro rfl
      refine does_bind (fun _ => OfStand (InSection cfg places x (y.take .oldest minIdx))) (does_change ?_) fun _ =>
        does_pure fun g table h => ⟨memLow, h, by rw [if_pos ⟨hnew, hlow⟩]⟩
      rintro i s rfl
      rw [IndexState.take, if_pos rfl]
      unfold IndexState.ofMemory
      dsimp only
      split_ifs with hless
      · rw [max_eq_right hless.le]
      · rw [max_eq_left (not_lt.1 hless)]
    · exact does_pure fun g table h => ⟨memLow, by rwa [hkept], by rw [if_neg fun h => hlow h.2]⟩
  · exact ⟨false, by rwa [hkept], by rw [if_neg fun h => hnot h.1]⟩

/-- The slots that are handed out. -/
theorem does_reserveSlots (type : PageType) (idx currentTime count lifetime : ℕ) :
    Does (guardedIndex α cfg) (OfStand (InSection cfg places x y))
      (Table.reserveSlots cfg type idx currentTime count lifetime)
      (fun start g table => OfStand (InSection cfg places x (y.setEntry idx (reservedEntry cfg
          (readyRecord cfg type idx (y.index idx)) currentTime count lifetime))) g table ∧
        start = (readyRecord cfg type idx (y.index idx)).used cfg) E := by
  refine does_bind _ (does_setEntry idx (readyRecord cfg type idx)) fun _ => ?_
  refine does_bind _ (does_entry idx) fun record => does_and ?_
  rintro rfl
  refine does_bind _ (does_setEntry idx fun record =>
    { record with pageElementsAvailable := subWord record.pageElementsAvailable count }) fun _ => ?_
  refine does_bind _ (does_setEntry idx fun record => record.updateExpire cfg currentTime lifetime) fun _ => ?_
  refine does_pure fun g table h => ⟨?_, by rw [IndexState.setEntry_index]⟩
  simp only [IndexState.setEntry_index, IndexState.setEntry_setEntry] at h
  exact h

/-- The loop of `addRecord` does not find the oldest page. -/
theorem choosePage_ne_oldest {index : ℕ → TablePageIndexElement} {now count n idx e m k m' : ℕ} {type : PageType}
    (h : choosePage index now count n idx e m = (type, k, m')) : type ≠ .oldest := by
  obtain ⟨-, -, -, rfl | ⟨-, ⟨rfl, -⟩ | ⟨rfl, -⟩ | ⟨rfl, -⟩⟩⟩ := choosePage_cases n idx e m h
  · exact nofun
  · exact nofun
  · exact nofun
  · exact nofun

/-- **The section of `addRecord`**: the place that is returned is the one that is handed out. -/
theorem does_addScope [Inhabited α] (currentTime : ℕ) {records : List α} (lifetime : ℕ)
    (hcount : records.length ≤ cfg.maxElementsInPage) :
    Does (guardedIndex α cfg) (OfStand (InSection cfg places x x)) (Table.addScope cfg currentTime records lifetime)
      (fun place => OfStand (OutOfSection cfg (places ++ [place]))) (OfStand (MayThrow cfg)) := by
  refine does_bind _ (does_chooseLoop currentTime records.length cfg.tableMaxPages 0 (2 ^ 32 - 1) 0) ?_
  rintro ⟨found, foundIdx, minIdx⟩
  refine does_and fun hfound => does_bind _ (does_takePage foundIdx minIdx (choosePage_ne_oldest hfound.symm)) ?_
  rintro ⟨type, idx⟩
  refine does_exists fun memLow => does_and fun htaken => ?_
  have hsel : x.view.selectPage cfg currentTime memLow records.length = (type, idx) := by
    rw [htaken]
    unfold View.selectPage IndexState.view
    dsimp only
    rw [← hfound]
  refine does_ite (fun hunknown => does_throw fun g table h => ?_) fun hknown => ?_
  · -- no page was found, and nothing has been written
    have hne : type ≠ .oldest := by
      rw [hunknown]
      exact nofun
    rw [x.take_of_ne idx hne] at h
    exact ⟨places, .inl h.mayExit⟩
  have hreserve : x.view.reserve cfg currentTime memLow records.length lifetime = _ :=
    reserve_eq lifetime hcount hsel hknown
  refine does_bind _ (does_reserveSlots type idx currentTime records.length lifetime) fun start => does_and ?_
  rintro rfl
  set r : Reservation := ⟨type, idx, (readyRecord cfg type idx ((x.take type idx).index idx)).used cfg⟩ with hr
  set place : Location := ⟨cfg.pageName idx, r.start.toUInt32, records.length.toUInt32⟩ with hplace
  refine does_bind (fun _ => OfStand (OutOfSection cfg (places ++ [place]))) ?_ fun _ => ?_
  · refine does_exitSection.mono (fun g table h => ?_) (fun _ _ _ h => h) fun _ _ h => ⟨_, .inl h⟩
    exact h.mayExit_of_changes (l := .reserve currentTime memLow records.length lifetime r) hreserve
  · refine does_bind _ ((Table.spares_getPageByName _).does fun _ _ h => ⟨_, .inr h⟩) fun page => ?_
    refine does_bind (fun _ => OfStand (OutOfSection cfg (places ++ [place]))) ?_ fun _ => does_pure fun _ _ h => h
    exact Spares.does (spares_write fun _ => ⟨rfl, rfl⟩) fun _ _ h => ⟨_, .inr h⟩

/-! ### `release_expired_memory_pages` and `cleanup` -/

theorem does_lastDataLoop (now k idx last : ℕ) :
    Does (guardedIndex α cfg) (OfStand (InSection cfg places x y)) (Table.lastDataLoop now k idx last)
      (fun r g table => OfStand (InSection cfg places x y) g table ∧
        r = lastData y.index y.globalExpireAt now k idx last) E := by
  induction k generalizing idx last with
  | zero => exact does_pure fun g table h => ⟨h, rfl⟩
  | succ k ih =>
    refine does_bind _ (does_entry idx) fun record => does_and ?_
    rintro rfl
    refine does_bind _ (does_look (b := y.globalExpireAt) fun _ _ hs => by rw [← hs]; rfl) fun _ => does_and ?_
    rintro rfl
    unfold lastData
    dsimp only
    split_ifs with hunused hneeded hneeded
    · exact does_pure fun g table h => ⟨h, rfl⟩
    · exact does_pure fun g table h => ⟨h, rfl⟩
    · exact ih _ _
    · exact ih _ _

theorem clears_setEntry (y : IndexState) (idx : ℕ) :
    Clears cfg y.view (y.setEntry idx (.clearFull cfg)).view idx (idx + 1) := by
  refine ⟨fun j => ?_, rfl⟩
  show Function.update y.index idx _ j = _
  by_cases hj : j = idx
  · rw [hj, Function.update_self, if_pos (by omega)]
  · rw [Function.update_of_ne hj, if_neg (by omega)]
    rfl

variable [Inhabited α]

/-- One entry is cleared, or its page cannot be mapped. -/
theorem does_unlinkEntry (idx : ℕ) :
    Does (guardedIndex α cfg) (OfStand (InSection cfg places x y)) (Table.unlinkEntry cfg idx)
      (fun _ => OfStand (InSection cfg places x (y.setEntry idx (.clearFull cfg))))
      (OfStand (InSection cfg places x y)) := by
  refine does_bind _ (does_entry idx) fun record => does_and ?_
  rintro rfl
  refine does_bind _ (Table.spares_getPageByName _ _) fun page => ?_
  refine does_bind (fun _ => OfStand (InSection cfg places x y)) ?_ fun _ => ?_
  · exact Spares.does (spares_write fun _ => ⟨rfl, rfl⟩) fun _ _ h => h
  refine does_bind (fun _ => OfStand (InSection cfg places x y)) ?_ fun _ => ?_
  · exact Spares.does (spares_write fun _ => ⟨rfl, rfl⟩) fun _ _ h => h
  · exact does_setEntry idx fun _ => .clearFull cfg

/-- The loop of `release_expired_memory_pages` has released the entries above `idx`. -/
theorem does_releaseLoop {now e last : ℕ} (hstop : e < cfg.tableMaxPages → (x.index e).expireAt = 0)
    (hneed : ∀ j < e, Needed (x.index j) x.globalExpireAt now → j ≤ last) (k idx : ℕ)
    (h : Section.Changes cfg x (.release now (idx + 1) e) y) :
    Does (guardedIndex α cfg) (OfStand (InSection cfg places x y)) (Table.releaseLoop cfg last k idx)
      (fun _ => OfStand (MayExit cfg places)) (OfStand (MayExit cfg places)) := by
  induction k generalizing idx y with
  | zero => exact does_pure fun g table hin => hin.mayExit_of_clears h rfl
  | succ k ih =>
    refine does_ite (fun hlast => ?_) fun _ => does_pure fun g table hin => hin.mayExit_of_clears h rfl
    refine does_bind (fun _ => OfStand (InSection cfg places x (y.setEntry idx (.clearFull cfg)))) ?_ fun _ => ?_
    · exact (does_unlinkEntry idx).throwing fun _ _ hin =>
        hin.mayExit_of_clears h rfl
    · obtain ⟨hrel, hdue, htimer⟩ := h
      refine ih (idx - 1) ⟨?_, hdue, htimer⟩
      have hsucc : idx - 1 + 1 = idx := by omega
      have hle := hrel.le
      rw [hsucc]
      refine ⟨by omega, hrel.bound, hrel.used, fun _ => by omega, fun _ => hstop, fun j hj hn => ?_, ?_⟩
      · have := hneed j hj hn
        omega
      · exact hrel.clears.trans (clears_setEntry y idx) (by omega) (by omega)

/-- The maintenance, when the shared timer has run out. -/
theorem does_maintain {now : ℕ} (hdue : x.expirationCheck ≤ now) :
    Does (guardedIndex α cfg) (OfStand (InSection cfg places x x))
      (Table.maintain cfg now ((now + checkExpiredPagesIntervalSec) % 2 ^ 32)) (fun _ => OfStand (MayExit cfg places))
      (OfStand (MayExit cfg places)) := by
  set y : IndexState := { x with expirationCheck := (now + checkExpiredPagesIntervalSec) % 2 ^ 32 } with hy
  refine does_bind (fun _ => OfStand (InSection cfg places x y)) ?_ fun _ => ?_
  · exact does_write fun s hs => by rw [hy, ← hs]; rfl
  refine does_bind _ (does_lastDataLoop now cfg.tableMaxPages 0 0) ?_
  rintro ⟨e, last⟩
  refine does_and fun hdata => ?_
  obtain ⟨-, he, hused, hend, -, hneed⟩ := lastData_cases _ _ _ _ _ _ le_rfl hdata.symm
  -- nothing is released yet
  have hnone : Section.Changes cfg x (.release now e e) y := by
    refine ⟨⟨le_rfl, by omega, fun j hj => hused j (by omega) hj, fun h => by omega, fun h => by omega,
      fun j hj _ => hj, ⟨fun j => ?_, rfl⟩⟩, hdue, rfl⟩
    rw [if_neg (by omega)]
    rfl
  refine does_ite (fun hloop => ?_) fun _ => does_pure fun g table hin => hin.mayExit_of_clears hnone rfl
  have hstop : e < cfg.tableMaxPages → (x.index e).expireAt = 0 := fun hlt => hend (by omega)
  have hsucc : e - 1 + 1 = e := by omega
  refine does_releaseLoop hstop (fun j hj hn => hneed j (by omega) hj hn) _ (e - 1) ?_
  rwa [hsucc]

theorem does_releaseScope (now : ℕ) :
    Does (guardedIndex α cfg) (OfStand (InSection cfg places x x))
      (Table.releaseScope cfg now ((now + checkExpiredPagesIntervalSec) % 2 ^ 32))
      (fun _ => OfStand (OutOfSection cfg places)) (OfStand (MayThrow cfg)) := by
  refine does_bind _ (does_look (b := x.expirationCheck) fun _ _ hs => by rw [← hs]; rfl) fun _ => does_and ?_
  rintro rfl
  refine does_bind (fun _ => OfStand (MayExit cfg places)) (does_ite (fun hdue => ?_) fun _ => ?_) fun _ => ?_
  · exact (does_maintain hdue).throwing fun _ _ h => ⟨places, .inl h⟩
  · exact does_pure fun g table h => h.mayExit
  · exact does_ended fun _ => Table.spares_dropUnlinked

/-- The loop of `cleanup` has cleared the entries below `idx`. -/
theorem does_cleanupLoop (k idx : ℕ) (hk : idx + k = cfg.tableMaxPages)
    (h : Section.Changes cfg x (.cleanup true idx) y) :
    Does (guardedIndex α cfg) (OfStand (InSection cfg places x y)) (Table.cleanupLoop cfg k idx)
      (fun _ => OfStand (MayExit cfg places)) (OfStand (MayExit cfg places)) := by
  induction k generalizing idx y with
  | zero =>
    refine does_pure fun g table hin => hin.mayExit_of_clears (l := .cleanup false idx) ?_ rfl
    exact ⟨⟨h.1.bound, h.1.used, fun _ hlt => by omega, h.1.clears⟩, h.2⟩
  | succ k ih =>
    obtain ⟨hclean, htimer⟩ := h
    have hsame : y.index idx = x.index idx := by
      have hindex := hclean.clears.index_eq idx
      rwa [if_neg (by omega)] at hindex
    refine does_bind _ (does_entry idx) fun record => does_and ?_
    rintro rfl
    rw [hsame]
    refine does_ite (fun hused => ?_) fun hunused => does_pure fun g table hin => ?_
    · refine does_bind (fun _ => OfStand (InSection cfg places x (y.setEntry idx (.clearFull cfg)))) ?_ fun _ => ?_
      · exact (does_unlinkEntry idx).throwing fun _ _ hin =>
          hin.mayExit_of_clears (l := .cleanup true idx) ⟨hclean, htimer⟩ rfl
      · refine ih (idx + 1) (by omega) ⟨⟨by omega, fun j hj => ?_, nofun, ?_⟩, htimer⟩
        · rcases Nat.lt_succ_iff_lt_or_eq.1 hj with hlt | rfl
          · exact hclean.used j hlt
          · exact hused
        · exact hclean.clears.append (clears_setEntry y idx) (by omega) (by omega)
    · have hwhole : CleansUp cfg x.view y.view false idx :=
        ⟨hclean.bound, hclean.used, fun _ _ => Nat.eq_zero_of_not_pos hunused, hclean.clears⟩
      exact hin.mayExit_of_clears (l := .cleanup false idx) ⟨hwhole, htimer⟩ rfl

end Inside

/-! ## The calls -/

section Calls

variable [Inhabited α] {places : List Location}

theorem does_releaseExpiredMemoryPages :
    Does (guardedIndex α cfg) (OfStand (OutOfSection cfg places)) (Table.releaseExpiredMemoryPages cfg)
      (fun _ => OfStand (OutOfSection cfg places)) (OfStand (AfterThrow cfg)) := by
  refine does_bind _ ((spares_look _).does fun _ _ h => ⟨places, h⟩) fun now => ?_
  refine does_bind _ (spares_get.does fun _ _ h => ⟨places, h⟩) fun table => ?_
  refine does_ite (fun _ => does_pure fun _ _ h => h) fun _ => ?_
  refine does_bind (fun _ => OfStand (OutOfSection cfg places)) ?_ fun _ => does_entered fun x => does_releaseScope now
  exact Spares.does (spares_modify fun _ => rfl) fun _ _ h => ⟨places, h⟩

theorem does_addRecord (records : List α) (lifetime : ℕ) :
    Does (guardedIndex α cfg) (OfStand (OutOfSection cfg places)) (Table.addRecord cfg records lifetime)
      (fun place => OfStand (OutOfSection cfg (places ++ [place]))) (OfStand (AfterThrow cfg)) := by
  refine does_bind _ does_releaseExpiredMemoryPages fun _ => ?_
  refine does_ite (fun _ => does_throw fun _ _ h => ⟨places, h⟩) fun hcount => ?_
  refine does_bind _ ((spares_look _).does fun _ _ h => ⟨places, h⟩) fun now => ?_
  exact does_entered fun x => does_addScope now lifetime (not_lt.1 hcount)

theorem does_processRecords :
    Does (guardedIndex α cfg) (OfStand (OutOfSection cfg places)) (Table.processRecords cfg)
      (fun _ => OfStand (OutOfSection cfg places)) (OfStand (AfterThrow cfg)) := by
  refine does_bind _ does_releaseExpiredMemoryPages fun _ => ?_
  refine does_bind _ ((spares_look _).does fun _ _ h => ⟨places, h⟩) fun now => does_entered fun x => ?_
  refine does_bind _ ((Table.spares_selectLoop now cfg.tableMaxPages 0).does fun _ _ h => ⟨places, .inl h.mayExit⟩) ?_
  intro todo
  refine (does_ended fun _ => Table.spares_scanLoop cfg todo).mono ?_ (fun _ _ _ h => h) fun _ _ h => h
  exact fun _ _ h => h.mayExit

theorem does_cleanup :
    Does (guardedIndex α cfg) (OfStand (OutOfSection cfg places)) (Table.cleanup cfg)
      (fun _ => OfStand (OutOfSection cfg places)) (OfStand (AfterThrow cfg)) := by
  refine does_entered fun x => ?_
  refine does_bind (fun _ => OfStand (MayExit cfg places)) ?_ fun _ => does_ended fun _ => spares_modify fun _ => rfl
  refine (does_cleanupLoop cfg.tableMaxPages 0 (Nat.zero_add _) ?_).throwing ?_
  · refine ⟨⟨Nat.zero_le _, fun j hj => by omega, nofun, ⟨fun j => ?_, rfl⟩⟩, rfl⟩
    rw [if_neg (by omega)]
  · exact fun _ _ h => ⟨places, .inl h⟩

/-- The code of a call, with the place that `addRecord` returns. -/
def TableCall.placing (cfg : TableConfig) : TableCall α → LockCode α Table (Option Location)
  | addRecord records lifetime => do
    let place ← Table.addRecord cfg records lifetime
    pure (some place)
  | processRecords => do
    let _ ← Table.processRecords cfg
    pure none
  | cleanup => do
    Table.cleanup cfg
    pure none
  | releaseExpiredMemoryPages => do
    Table.releaseExpiredMemoryPages cfg
    pure none

/-- It is the call, but for the place. -/
theorem TableCall.code_eq_placing (cfg : TableConfig) (call : TableCall α) :
    call.code cfg = (do let _ ← call.placing cfg; pure ()) := by
  unfold placing
  cases call with
  | addRecord records lifetime =>
    dsimp only
    rw [Code.bind_assoc]
    rfl
  | processRecords =>
    dsimp only
    rw [Code.bind_assoc]
    rfl
  | cleanup =>
    dsimp only
    rw [Code.bind_assoc]
    exact (Code.bind_pure_unit _).symm
  | releaseExpiredMemoryPages =>
    dsimp only
    rw [Code.bind_assoc]
    exact (Code.bind_pure_unit _).symm

/-- A call that returns was handed out the place it returns, and no other. -/
def ReturnsPlace (cfg : TableConfig) (r : Except Error (Option Location)) (done : List Section) : Prop :=
  ∀ place, r = .ok place → done.filterMap (Section.place cfg) = place.toList

/-- **Each call** completes its sections. -/
theorem does_placing (cfg : TableConfig) (call : TableCall α) :
    Does (guardedIndex α cfg) (OfStand (OutOfSection cfg [])) (call.placing cfg)
      (fun place => OfStand (OutOfSection cfg place.toList)) (OfStand (AfterThrow cfg)) := by
  cases call with
  | addRecord records lifetime =>
    exact does_bind _ (does_addRecord records lifetime) fun place => does_pure fun _ _ h => h
  | processRecords => exact does_bind _ does_processRecords fun _ => does_pure fun _ _ h => h
  | cleanup => exact does_bind _ does_cleanup fun _ => does_pure fun _ _ h => h
  | releaseExpiredMemoryPages => exact does_bind _ does_releaseExpiredMemoryPages fun _ => does_pure fun _ _ h => h

theorem inSections_placing (cfg : TableConfig) :
    InSections (guardedIndex α cfg) (fun call : TableCall α => call.placing cfg)
      (fun table => table.lock = ⟨cfg.tableName, false⟩) (ReturnsPlace cfg) := by
  intro call table hlock
  refine (does_placing cfg call ⟨none, []⟩ table ⟨rfl, rfl, hlock⟩).mono ?_
  rintro ⟨err | place, table⟩ g hend
  · obtain ⟨places, hout, -, hlock⟩ := hend
    exact ⟨hout, hlock, nofun⟩
  · obtain ⟨hout, hplaces, hlock⟩ := hend
    refine ⟨hout, hlock, ?_⟩
    rintro place' hok
    cases hok
    exact hplaces

end Calls

/-- `n` processes that call the table, with the places that are returned. -/
abbrev PlacingSystem (α : Type) (n : ℕ) :=
  System (Fin n) (TableMemory α) (Option Error × Meets) Bytes (Except Error (Option Location)) Table

/-- Processes that have constructed the table and begun no call. -/
def PlacingSystem.init (cfg : TableConfig) {n : ℕ} (memory : TableMemory α) (own : Fin n → TableLocal) :
    PlacingSystem α n :=
  System.init memory fun a => ⟨own a, ⟨cfg.tableName, false⟩⟩

theorem unlocked_start (cfg : TableConfig) {n : ℕ} (own : Fin n → TableLocal) (a : Fin n) :
    (⟨own a, ⟨cfg.tableName, false⟩⟩ : Table).lock = ⟨cfg.tableName, false⟩ := rfl

/-- The processes after a run. -/
abbrev PlacingSystem.after [Inhabited α] (cfg : TableConfig) {n : ℕ} (memory : TableMemory α) (own : Fin n → TableLocal)
    (moves : List (TableMove α n)) : PlacingSystem α n :=
  run (System.step (TableCall.placing cfg)) (PlacingSystem.init cfg memory own) moves

/-- They go through the states of `TableSystem`. -/
theorem placing_run [Inhabited α] (cfg : TableConfig) (n : ℕ) (memory : TableMemory α) (own : Fin n → TableLocal)
    (moves : List (TableMove α n)) :
    run (TableSystem.step cfg) (.init cfg memory own) moves =
      (PlacingSystem.after cfg memory own moves).mapResults (Except.map fun _ => ()) := by
  refine run_mapResults (fun call table => ?_) (PlacingSystem.init cfg memory own) moves
  rw [TableCall.code_eq_placing]
  refine congrArg (call.placing cfg table).bind (funext ?_)
  rintro ⟨err | place, table⟩
  · rfl
  · rfl

/-- The order of the sections that explains a run of the processes. -/
abbrev PlacingSystem.Explained [Inhabited α] (cfg : TableConfig) {n : ℕ} (memory : TableMemory α)
    (own : Fin n → TableLocal) (moves : List (TableMove α n)) (log : List (Fin n × Section)) : Prop :=
  Explains (guardedIndex α cfg) (TableCall.placing cfg) (ReturnsPlace cfg) (PlacingSystem.init cfg memory own) moves log

section Runs

variable [Inhabited α] (cfg : TableConfig) (n : ℕ) (memory : TableMemory α) (own : Fin n → TableLocal)
  (before later : List (TableMove α n))

/-- **Locked sections are atomic**, statement by statement and in every interleaving of the calls of any number of
processes, where statements throw what the source throws. One order of the sections explains the index, its timer and
`global_expire_at` whenever the lock is free, the sections of a process are those of its calls, and each `addRecord`
returns the place that its section has handed out. More steps only add to that order. -/
theorem sections_serial (hquiet : ∀ m ∈ before ++ later, m.input.1 = none) :
    ∃ log log', log <+: log' ∧ PlacingSystem.Explained cfg memory own before log ∧
      PlacingSystem.Explained cfg memory own (before ++ later) log' :=
  serial_run (inSections_placing cfg) memory (unlocked_start cfg own) before later hquiet

/-- **A process that stops in a locked section stops the table.** The others leave the index, its timer and
`global_expire_at` as the process left them, they complete no section, and the lock stays taken. -/
theorem table_stops (hquiet : ∀ m ∈ before ++ later, m.input.1 = none) (a : Fin n)
    (hholds : ((PlacingSystem.after cfg memory own before).processes a).Holds cfg.tableName)
    (hstops : ∀ m ∈ later, m.process ≠ a) :
    ∃ log, PlacingSystem.Explained cfg memory own before log ∧
      PlacingSystem.Explained cfg memory own (before ++ later) log ∧
      IndexState.ofMemory (PlacingSystem.after cfg memory own (before ++ later)).shared =
        IndexState.ofMemory (PlacingSystem.after cfg memory own before).shared ∧
      (PlacingSystem.after cfg memory own (before ++ later)).value cfg.tableName = 0 :=
  stopped_run (inSections_placing cfg) memory (unlocked_start cfg own) before later hquiet hholds hstops

end Runs

/-- The process makes `k` moves in an `addRecord`. -/
def adds (a : Fin 2) (k : ℕ) : List (TableMove UInt8 2) :=
  List.replicate k ⟨a, .addRecord [1, 2] 0, (none, ⟨100, false, fun _ => .mapped⟩), true⟩

/-- Two processes move in turn. -/
def addsInTurn (k : ℕ) : List (TableMove UInt8 2) := (List.replicate k (adds 0 1 ++ adds 1 1)).flatten

theorem adds_quiet {a : Fin 2} {k : ℕ} {m : TableMove UInt8 2} (hm : m ∈ adds a k) : m.input.1 = none := by
  rw [List.eq_of_mem_replicate hm]

theorem addsInTurn_quiet {k : ℕ} {m : TableMove UInt8 2} (hm : m ∈ addsInTurn k) : m.input.1 = none := by
  obtain ⟨moves, hmoves, hm⟩ := List.mem_flatten.1 hm
  rw [List.eq_of_mem_replicate hmoves] at hm
  exact (List.mem_append.1 hm).elim adds_quiet adds_quiet

/-- On an empty table, the two processes get slots behind each other. -/
theorem sections_serial_adds :
    (∃ log log', log <+: log' ∧ PlacingSystem.Explained smallTable ⟨.init, 0⟩ (fun _ => .init) (addsInTurn 20) log ∧
      PlacingSystem.Explained smallTable ⟨.init, 0⟩ (fun _ => .init) (addsInTurn 20 ++ addsInTurn 20) log') ∧
      ((returned (TableCall.placing smallTable) (PlacingSystem.init smallTable ⟨.init, 0⟩ fun _ => .init)
        (addsInTurn 40)).map fun x => (x.1, x.2.toOption)) =
        [(0, some (some ⟨str "T:0", 0, 2⟩)), (1, some (some ⟨str "T:0", 2, 2⟩)),
          (0, some (some ⟨str "T:0", 4, 2⟩))] := by
  refine ⟨sections_serial smallTable 2 ⟨.init, 0⟩ (fun _ => .init) (addsInTurn 20) (addsInTurn 20) fun m hm => ?_, ?_⟩
  · exact (List.mem_append.1 hm).elim addsInTurn_quiet addsInTurn_quiet
  · decide +kernel

/-- The first process stops in its section, and the second one waits. -/
theorem table_stops_adds :
    ∃ log, PlacingSystem.Explained smallTable ⟨.init, 0⟩ (fun _ => .init) (adds 0 10) log ∧
      PlacingSystem.Explained smallTable ⟨.init, 0⟩ (fun _ => .init) (adds 0 10 ++ adds 1 30) log ∧
      IndexState.ofMemory (PlacingSystem.after smallTable ⟨.init, 0⟩ (fun _ => .init) (adds 0 10 ++ adds 1 30)).shared =
        IndexState.ofMemory (PlacingSystem.after smallTable ⟨.init, 0⟩ (fun _ => .init) (adds 0 10)).shared ∧
      (PlacingSystem.after smallTable ⟨.init, 0⟩ (fun _ => .init) (adds 0 10 ++ adds 1 30)).value
        smallTable.tableName = 0 := by
  refine table_stops smallTable 2 ⟨.init, 0⟩ (fun _ => .init) (adds 0 10) (adds 1 30) ?_ 0 ?_ fun m hm => ?_
  · exact fun m hm => (List.mem_append.1 hm).elim adds_quiet adds_quiet
  · decide +kernel
  · rw [List.eq_of_mem_replicate hm]
    decide

end DealsServer
