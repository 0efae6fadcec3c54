import DealsServer.Proof.Names

/-!
# Names and objects of pages

* `Keeps`: what an operation leaves of the objects there are. `coherent_step` and `keeps_step` say what a step
  of the system does to them.
* `maps_iff`: when a page can be mapped.

A name stands for one object at a time and an object has one name (`Sound`). What a process has mapped under a
name is an object of that name, though maybe of the past (`Mapped`).
-/

namespace DealsServer

variable {α : Type} {cfg : TableConfig}

/-! ## Objects and their names -/

section Fields

variable (sh : SharedMemory α) (name : Bytes) (o : ℕ)

@[simp] theorem unlink_names : (sh.unlink name).names = Function.update sh.names name none := rfl

@[simp] theorem markUnlinked_objects :
    (sh.markUnlinked o).objects = Function.update sh.objects o { sh.objects o with unlinked := true } := rfl

variable [Inhabited α]

@[simp] theorem create_names (sized : Bool) :
    (sh.create name sized).names = Function.update sh.names name (some sh.nextObject) := rfl

@[simp] theorem create_objects (sized : Bool) : (sh.create name sized).objects =
    Function.update sh.objects sh.nextObject ⟨sized, false, fun _ => default⟩ := rfl

end Fields

/-- Names stand for objects that exist, different names for different ones. -/
structure Sound (sh : SharedMemory α) : Prop where
  allocated : ∀ name o, sh.names name = some o → o < sh.nextObject
  injective : ∀ name name' o, sh.names name = some o → sh.names name' = some o → name = name'

/-- The object was opened under the name. -/
structure Mapped (sh : SharedMemory α) (name : Bytes) (o : ℕ) : Prop where
  allocated : o < sh.nextObject
  sized : (sh.objects o).sized = true
  owner : ∀ name', sh.names name' = some o → name' = name

/-- Objects keep their elements, and all names of pages but the `removed` ones stand for the same objects. -/
structure Keeps (removed : Bytes → Prop) (sh sh' : SharedMemory α) : Prop where
  sound : Sound sh → Sound sh'
  mapped : ∀ name o, Mapped sh name o → Mapped sh' name o
  names : Sound sh → ∀ name o, sh.names name = some o → (sh.objects o).sized = true → ¬ removed name →
    sh'.names name = some o
  elements : ∀ o < sh.nextObject, (sh'.objects o).elements = (sh.objects o).elements
  next : sh.nextObject ≤ sh'.nextObject

variable {removed removed' : Bytes → Prop} {sh sh' sh'' : SharedMemory α}

theorem Sound.mapped (h : Sound sh) {name : Bytes} {o : ℕ} (hn : sh.names name = some o)
    (hsized : (sh.objects o).sized = true) : Mapped sh name o :=
  ⟨h.allocated name o hn, hsized, fun name' hn' => h.injective name' name o hn' hn⟩

theorem Keeps.refl (removed : Bytes → Prop) (sh : SharedMemory α) : Keeps removed sh sh :=
  ⟨id, fun _ _ => id, fun _ _ _ h _ _ => h, fun _ _ => rfl, le_rfl⟩

theorem Keeps.trans (h : Keeps removed sh sh') (h' : Keeps removed sh' sh'') : Keeps removed sh sh'' := by
  refine ⟨h'.sound ∘ h.sound, fun name o => h'.mapped name o ∘ h.mapped name o, ?_, ?_, h.next.trans h'.next⟩
  · intro hs name o hn hsized hkept
    have hmapped := h.mapped name o (hs.mapped hn hsized)
    exact h'.names (h.sound hs) name o (h.names hs name o hn hsized hkept) hmapped.sized hkept
  · intro o ho
    rw [h'.elements o (lt_of_lt_of_le ho h.next), h.elements o ho]

theorem Keeps.mono (h : Keeps removed sh sh') (hle : ∀ name, removed name → removed' name) :
    Keeps removed' sh sh' :=
  ⟨h.sound, h.mapped, fun hs name o hn hsized hkept => h.names hs name o hn hsized fun hr => hkept (hle name hr),
    h.elements, h.next⟩

/-- Index and timers do not matter. -/
theorem Keeps.of_eq (hn : sh'.names = sh.names) (ho : sh'.objects = sh.objects)
    (hnext : sh'.nextObject = sh.nextObject) : Keeps removed sh sh' := by
  refine ⟨fun h => ?_, fun name o h => ?_, fun _ name o h _ _ => ?_, fun o _ => ?_, hnext.ge⟩
  · exact ⟨by rw [hn, hnext]; exact h.allocated, by rw [hn]; exact h.injective⟩
  · exact ⟨by rw [hnext]; exact h.allocated, by rw [ho]; exact h.sized, by rw [hn]; exact h.owner⟩
  · rw [hn]
    exact h
  · rw [ho]

theorem keeps_unlink {name : Bytes}
    (h : removed name ∨ ∃ o, sh.names name = some o ∧ (sh.objects o).sized = false) :
    Keeps removed sh (sh.unlink name) := by
  have hsub (name' : Bytes) (o : ℕ) (hn : (sh.unlink name).names name' = some o) : sh.names name' = some o := by
    by_cases heq : name' = name
    · rw [heq, unlink_names, Function.update_self] at hn
      cases hn
    · rwa [unlink_names, Function.update_of_ne heq] at hn
  refine ⟨fun hs => ⟨fun n o hn => hs.allocated n o (hsub n o hn), fun n n' o hn hn' => ?_⟩, fun n o hm => ?_, ?_,
    fun _ _ => rfl, le_rfl⟩
  · exact hs.injective n n' o (hsub n o hn) (hsub n' o hn')
  · exact ⟨hm.allocated, hm.sized, fun n' hn' => hm.owner n' (hsub n' o hn')⟩
  · intro _ name' o hn hsized hkept
    have hne : name' ≠ name := by
      rintro rfl
      rcases h with hr | ⟨o', hn', hunsized⟩
      · exact hkept hr
      · rw [hn] at hn'
        cases hn'
        rw [hsized] at hunsized
        cases hunsized
    rw [unlink_names, Function.update_of_ne hne]
    exact hn

theorem keeps_markUnlinked (o : ℕ) : Keeps removed sh (sh.markUnlinked o) := by
  have hobject (o' : ℕ) : ((sh.markUnlinked o).objects o').sized = (sh.objects o').sized ∧
      ((sh.markUnlinked o).objects o').elements = (sh.objects o').elements := by
    by_cases h : o' = o
    · rw [h, markUnlinked_objects, Function.update_self]
      exact ⟨rfl, rfl⟩
    · rw [markUnlinked_objects, Function.update_of_ne h]
      exact ⟨rfl, rfl⟩
  refine ⟨fun h => ⟨h.allocated, h.injective⟩, fun name o' h => ⟨h.allocated, ?_, h.owner⟩, fun _ _ _ h _ _ => h,
    fun o' _ => (hobject o').2, le_rfl⟩
  rw [(hobject o').1]
  exact h.sized

theorem copy_mapped {o start : ℕ} {records : List α} {name : Bytes} {o' : ℕ} (h : Mapped sh name o') :
    Mapped (sh.copy o start records) name o' := by
  refine ⟨h.allocated, ?_, h.owner⟩
  show (Function.update sh.objects o _ o').sized = true
  by_cases heq : o' = o
  · rw [heq, Function.update_self]
    exact heq ▸ h.sized
  · rw [Function.update_of_ne heq]
    exact h.sized

section Create

variable [Inhabited α]

theorem create_object {name : Bytes} {sized : Bool} {o : ℕ} (h : o < sh.nextObject) :
    (sh.create name sized).objects o = sh.objects o := by
  rw [create_objects, Function.update_of_ne (by omega)]

theorem keeps_create {name : Bytes} {sized : Bool} (hfree : sh.names name = none) :
    Keeps removed sh (sh.create name sized) := by
  -- the only new name is that of the new object
  have hname (name' : Bytes) (o : ℕ) (hn : (sh.create name sized).names name' = some o) :
      name' = name ∧ o = sh.nextObject ∨ sh.names name' = some o := by
    by_cases heq : name' = name
    · rw [heq, create_names, Function.update_self] at hn
      exact .inl ⟨heq, (Option.some.inj hn).symm⟩
    · rw [create_names, Function.update_of_ne heq] at hn
      exact .inr hn
  refine ⟨fun hs => ⟨fun n o hn => ?_, fun n n' o hn hn' => ?_⟩, fun n o hm => ⟨?_, ?_, fun n' hn' => ?_⟩, ?_,
    fun o ho => by rw [create_object ho], Nat.le_succ _⟩
  · show o < sh.nextObject + 1
    rcases hname n o hn with ⟨-, rfl⟩ | hold
    · omega
    · have := hs.allocated n o hold
      omega
  · rcases hname n o hn with ⟨rfl, ho⟩ | hold
    · rcases hname n' o hn' with ⟨rfl, -⟩ | hold'
      · rfl
      · have := hs.allocated n' o hold'
        omega
    · rcases hname n' o hn' with ⟨rfl, ho⟩ | hold'
      · have := hs.allocated n o hold
        omega
      · exact hs.injective n n' o hold hold'
  · exact lt_of_lt_of_le hm.allocated (Nat.le_succ _)
  · rw [create_object hm.allocated]
    exact hm.sized
  · rcases hname n' o hn' with ⟨-, rfl⟩ | hold
    · exact absurd hm.allocated (lt_irrefl _)
    · exact hm.owner n' hold
  · intro _ n o hn _ _
    have hne : n ≠ name := by
      rintro rfl
      rw [hfree] at hn
      cases hn
    rw [create_names, Function.update_of_ne hne]
    exact hn

theorem create_mapped {name : Bytes} (h : Sound sh) : Mapped (sh.create name true) name sh.nextObject := by
  refine ⟨Nat.lt_succ_self _, by rw [create_objects, Function.update_self], fun name' hn => ?_⟩
  by_contra hne
  rw [create_names, Function.update_of_ne hne] at hn
  exact absurd (h.allocated name' _ hn) (lt_irrefl _)

end Create

/-! ## Pages of a process -/

/-- The pages a process has open are mapped. -/
structure Coherent (v : View α) : Prop where
  sound : Sound v.shared
  opened : ∀ page ∈ v.own.openedPagesList, Mapped v.shared page.1 page.2

/-- Objects are kept, and open pages stay mapped. -/
structure Evolves (removed : Bytes → Prop) (v v' : View α) : Prop where
  keeps : Keeps removed v.shared v'.shared
  coherent : Coherent v → Coherent v'

/-- The name of an entry that was used and is cleared. -/
def Cleared (index index' : ℕ → TablePageIndexElement) (name : Bytes) : Prop :=
  ∃ j, 0 < (index j).expireAt ∧ (index' j).expireAt = 0 ∧ (index j).pageName = name

variable {v v' v'' : View α}

theorem Evolves.refl (removed : Bytes → Prop) (v : View α) : Evolves removed v v := ⟨Keeps.refl _ _, id⟩

theorem Evolves.trans (h : Evolves removed v v') (h' : Evolves removed v' v'') : Evolves removed v v'' :=
  ⟨h.keeps.trans h'.keeps, h'.coherent ∘ h.coherent⟩

theorem Evolves.mono (h : Evolves removed v v') (hle : ∀ name, removed name → removed' name) :
    Evolves removed' v v' :=
  ⟨h.keeps.mono hle, h.coherent⟩

/-- Shared memory evolves and the process opens no page. -/
theorem Keeps.evolves (h : Keeps removed v.shared v'.shared)
    (hown : ∀ page ∈ v'.own.openedPagesList, page ∈ v.own.openedPagesList) : Evolves removed v v' :=
  ⟨h, fun hc => ⟨h.sound hc.sound, fun page hp => h.mapped _ _ (hc.opened page (hown page hp))⟩⟩

theorem Clears.zero {lo hi : ℕ} (h : Clears cfg v v' lo hi) {j : ℕ} (hzero : (v.shared.index j).expireAt = 0) :
    (v'.shared.index j).expireAt = 0 := by
  rw [h.index_eq]
  split_ifs
  · rfl
  · exact hzero

theorem Clears.same {lo hi : ℕ} (h : Clears cfg v v' lo hi) {j : ℕ} (hused : 0 < (v'.shared.index j).expireAt) :
    v'.shared.index j = v.shared.index j := by
  rw [h.index_eq] at hused ⊢
  split_ifs at hused ⊢
  · exact absurd hused (lt_irrefl 0)
  · rfl

/-- Clearing goes on from what is left. -/
theorem Evolves.clears {lo hi lo' hi' : ℕ} (h : Evolves (Cleared v.shared.index v'.shared.index) v v')
    (h' : Evolves (Cleared v'.shared.index v''.shared.index) v' v'') (hc : Clears cfg v v' lo hi)
    (hc' : Clears cfg v' v'' lo' hi') : Evolves (Cleared v.shared.index v''.shared.index) v v'' := by
  apply (h.mono _).trans (h'.mono _)
  · rintro name ⟨j, hused, hzero, hname⟩
    exact ⟨j, hused, hc'.zero hzero, hname⟩
  · rintro name ⟨j, hused, hzero, hname⟩
    have hsame := hc.same hused
    rw [hsame] at hused hname
    exact ⟨j, hused, hzero, hname⟩

theorem mem_of_local {own : TableLocal} {name : Bytes} {o : ℕ} (h : own.localGetPageByName name = some o) :
    (name, o) ∈ own.openedPagesList := by
  unfold TableLocal.localGetPageByName at h
  obtain ⟨page, hfind, rfl⟩ := Option.map_eq_some_iff.1 h
  have hname : page.1 = name := by simpa using List.find?_some hfind
  rw [← hname]
  exact List.mem_of_find?_eq_some hfind

/-- The page a process is about to write to or to read, and the object it has mapped for it. -/
def Pc.page (cfg : TableConfig) : Pc α → Option (Bytes × ℕ)
  | .copy o r _ => some (cfg.pageName r.idx, o)
  | .scanPage name o _ _ => some (name, o)
  | .readElement o place => some (place.pageName, o)
  | _ => none

/-- The step copies records into an object. -/
def Copies (s : Processes α) (a : Action α) (o : ℕ) (r : Reservation) (records : List α) : Prop :=
  ∃ pid op, a.actor = .process pid op ∧ (s.processes pid).pc = .copy o r records

/-- Every process has mapped what it has open and what it is about to use. -/
structure Attached (cfg : TableConfig) (s : Processes α) : Prop where
  sound : Sound s.shared
  opened : ∀ pid, ∀ page ∈ (s.processes pid).own.openedPagesList, Mapped s.shared page.1 page.2
  held : ∀ pid name o, (s.processes pid).pc.page cfg = some (name, o) → Mapped s.shared name o

theorem put_processes (s : Processes α) (pid : ℕ) (pc : Pc α) (v : View α) :
    (s.put pid pc v).processes = Function.update s.processes pid ⟨v.own, pc⟩ := rfl

theorem Attached.coherent {s : Processes α} (h : Attached cfg s) (pid : ℕ) : Coherent (s.view pid) := ⟨h.sound, h.opened pid⟩

/-- The page can be mapped: it is open, or the attempt to open it succeeds. -/
def Maps (v : View α) (name : Bytes) (res : OpenResult) : Prop :=
  (∃ o, v.own.localGetPageByName name = some o) ∨
    name ≠ [] ∧ name.length ≤ mempageNameMaxLen - 6 ∧
      res ≠ .noSemaphore ∧ res ≠ .lockTimeout ∧ res ≠ .cannotOpen ∧ res ≠ .cannotMap ∧
      match v.shared.names name with
      | none => res = .mapped
      | some o => (v.shared.objects o).sized = true

section Steps

variable [Inhabited α]

theorem OpenFails.keeps {name : Bytes} {err : TableError} (h : OpenFails sh sh' name err) : Keeps removed sh sh' := by
  obtain rfl | ⟨_, hfree, rfl⟩ | ⟨o, hn, hsized, rfl⟩ := h.effect
  · exact Keeps.refl _ _
  · exact keeps_create hfree
  · exact keeps_unlink (.inr ⟨o, hn, hsized⟩)

/-- **Mapping a page** keeps all objects, and what is mapped belongs to the name. -/
theorem getPageByName_evolves (removed : Bytes → Prop) (v : View α) (name : Bytes) (res : OpenResult) :
    Evolves removed v (v.getPageByName name res).2 ∧
      ∀ o, (v.getPageByName name res).1 = .ok o → Coherent v → Mapped (v.getPageByName name res).2.shared name o := by
  obtain ⟨o, hlocal, h⟩ | ⟨-, ⟨o, sh, h, hopen⟩ | ⟨err, sh, h, hfail⟩⟩ := getPageByName_cases v name res
  · rw [h]
    refine ⟨Evolves.refl _ _, ?_⟩
    rintro o' ⟨⟩ hc
    exact hc.opened _ (mem_of_local hlocal)
  · rw [h]
    have hkeeps : Keeps removed v.shared sh := by
      obtain ⟨-, -, rfl⟩ | ⟨hfree, -, rfl⟩ := hopen
      · exact Keeps.refl _ _
      · exact keeps_create hfree
    have hmapped (hc : Coherent v) : Mapped sh name o := by
      obtain ⟨hn, hsized, rfl⟩ | ⟨-, rfl, rfl⟩ := hopen
      · exact hc.sound.mapped hn hsized
      · exact create_mapped hc.sound
    refine ⟨⟨hkeeps, fun hc => ⟨hkeeps.sound hc.sound, fun page hpage => ?_⟩⟩, ?_⟩
    · rcases List.mem_append.1 hpage with hold | hnew
      · exact hkeeps.mapped _ _ (hc.opened page hold)
      · rw [List.mem_singleton.1 hnew]
        exact hmapped hc
    · rintro o' ⟨⟩ hc
      exact hmapped hc
  · rw [h]
    exact ⟨hfail.keeps.evolves fun _ => id, nofun⟩

/-- **When a page can be mapped.** -/
theorem maps_iff (v : View α) (name : Bytes) (res : OpenResult) :
    Maps v name res ↔ ∃ o, (v.getPageByName name res).1 = .ok o := by
  unfold Maps View.getPageByName
  rcases v.own.localGetPageByName name with _ | o
  swap
  · simp
  dsimp only
  by_cases hempty : name = []
  · simp [SharedMemory.openPage, hempty]
  by_cases hlong : name.length > mempageNameMaxLen - 6
  · simp [SharedMemory.openPage, hempty, hlong]
  have hshort := not_lt.1 hlong
  unfold SharedMemory.openPage
  rw [if_neg hempty, if_neg hlong]
  rcases v.shared.names name with _ | o
  · cases res <;> simp [hempty, hshort]
  · rcases hsized : (v.shared.objects o).sized <;> cases res <;> simp [hempty, hshort, hsized]

/-- Unlinking the page of a used entry removes its name only. -/
theorem unlinkEntry_evolves (cfg : TableConfig) (v : View α) (idx : ℕ) (opens : Bytes → OpenResult)
    (hused : 0 < (v.shared.index idx).expireAt) :
    Evolves (Cleared v.shared.index (v.unlinkEntry cfg idx opens).2.shared.index) v (v.unlinkEntry cfg idx opens).2 := by
  unfold View.unlinkEntry
  dsimp only
  rcases hget : v.getPageByName (v.shared.index idx).pageName (opens (v.shared.index idx).pageName) with ⟨err | o, w⟩
  · have hopen := (getPageByName_evolves (Cleared v.shared.index w.shared.index) v (v.shared.index idx).pageName
      (opens (v.shared.index idx).pageName)).1
    rw [hget] at hopen
    exact hopen
  · dsimp only
    have hopen (removed : Bytes → Prop) := (getPageByName_evolves removed v (v.shared.index idx).pageName
      (opens (v.shared.index idx).pageName)).1
    rw [hget] at hopen
    refine (hopen _).trans (Keeps.evolves (Keeps.trans (keeps_markUnlinked o) ?_) fun _ => id)
    refine Keeps.trans (keeps_unlink (.inl ⟨idx, hused, ?_, rfl⟩)) (Keeps.of_eq rfl rfl rfl)
    show (Function.update w.shared.index idx (.clearFull cfg) idx).expireAt = 0
    rw [Function.update_self]
    rfl

theorem releaseLoop_evolves (cfg : TableConfig) (opens : Bytes → OpenResult) (last n idx : ℕ) (v : View α)
    (hused : ∀ j, last < j → j ≤ idx → 0 < (v.shared.index j).expireAt) :
    Evolves (Cleared v.shared.index (releaseLoop cfg opens last n idx v).2.shared.index) v
      (releaseLoop cfg opens last n idx v).2 := by
  induction n generalizing idx v with
  | zero => exact Evolves.refl _ v
  | succ n ih =>
    unfold releaseLoop
    by_cases hlast : last < idx
    swap
    · rw [if_neg hlast]
      exact Evolves.refl _ v
    rw [if_pos hlast]
    have hunlink := unlinkEntry_evolves cfg v idx opens (hused idx hlast le_rfl)
    obtain ⟨v₁, heq, hclear⟩ | ⟨err, v₁, heq, -, -⟩ := unlinkEntry_cases cfg v idx opens
    · rw [heq] at hunlink ⊢
      dsimp only at hunlink ⊢
      obtain ⟨b, hb, -, hclears, -⟩ := releaseLoop_cases cfg opens last n (idx - 1) v₁
      have hidx : idx - 1 + 1 = idx := by omega
      rw [hidx] at hclears
      refine hunlink.clears (ih (idx - 1) v₁ fun j hj hji => ?_) hclear hclears
      rw [hclear.index_eq, if_neg (by omega)]
      exact hused j hj (by omega)
    · rw [heq] at hunlink ⊢
      exact hunlink

theorem releaseLocked_evolves (cfg : TableConfig) (v : View α) (now : ℕ) (opens : Bytes → OpenResult) :
    Evolves (Cleared v.shared.index (v.releaseLocked cfg now opens).2.shared.index) v
      (v.releaseLocked cfg now opens).2 := by
  have htimers (removed : Bytes → Prop) (w : View α) (hn : w.shared.names = v.shared.names) (ho : w.shared.objects = v.shared.objects)
      (hnext : w.shared.nextObject = v.shared.nextObject) (hopened : w.own.openedPagesList = v.own.openedPagesList) :
      Evolves removed v w := Keeps.evolves (Keeps.of_eq hn ho hnext) fun page hp => hopened ▸ hp
  unfold View.releaseLocked
  dsimp only
  by_cases hdue : v.shared.expirationCheck ≤ now
  swap
  · rw [if_neg hdue]
    exact htimers _ _ rfl rfl rfl rfl
  rw [if_pos hdue]
  rcases hdata : lastData v.shared.index v.globalExpireAt now cfg.tableMaxPages 0 0 with ⟨e, l⟩
  obtain ⟨-, -, hused, -, -, -⟩ := lastData_cases _ _ _ _ _ _ le_rfl hdata
  dsimp only
  by_cases hloop : e > 0 ∧ l < e - 1
  · rw [if_pos hloop]
    have hrelease := releaseLoop_evolves cfg opens l removeExpiredPagesAtOnce (e - 1)
      (⟨{ v.shared with expirationCheck := (now + checkExpiredPagesIntervalSec) % 2 ^ 32 }, v.globalExpireAt,
        { v.own with timeToCheckPageExpire := (now + checkExpiredPagesIntervalSec) % 2 ^ 32 }⟩ : View α)
      fun j _ hj => hused j (Nat.zero_le j) (by omega)
    refine Evolves.trans (htimers _ _ ?_ ?_ ?_ ?_) hrelease <;> rfl
  · rw [if_neg hloop]
    exact htimers _ _ rfl rfl rfl rfl

theorem cleanupLoop_evolves (cfg : TableConfig) (opens : Bytes → OpenResult) (n idx : ℕ) (v : View α) :
    Evolves (Cleared v.shared.index (cleanupLoop cfg opens n idx v).2.shared.index) v
      (cleanupLoop cfg opens n idx v).2 := by
  induction n generalizing idx v with
  | zero => exact Evolves.refl _ v
  | succ n ih =>
    unfold cleanupLoop
    by_cases hused : (v.shared.index idx).expireAt > 0
    swap
    · rw [if_neg hused]
      exact Evolves.refl _ v
    rw [if_pos hused]
    have hunlink := unlinkEntry_evolves cfg v idx opens hused
    obtain ⟨v₁, heq, hclear⟩ | ⟨err, v₁, heq, -, -⟩ := unlinkEntry_cases cfg v idx opens
    · rw [heq] at hunlink ⊢
      dsimp only at hunlink ⊢
      obtain ⟨c, -, -, -, hclears, -⟩ := cleanupLoop_cases cfg opens n (idx + 1) v₁
      exact hunlink.clears (ih (idx + 1) v₁) hclear hclears
    · rw [heq] at hunlink ⊢
      exact hunlink

/-! ## The system -/

/-- **What a step of a process does to pages**: it copies records, or objects are kept. -/
theorem processStep_evolves (cfg : TableConfig) (v : View α) (pc : Pc α) (op : Op α) (a : Action α) :
    (∃ o r records, pc = .copy o r records ∧
        (processStep cfg v pc op a).2.2 = { v with shared := v.shared.copy o r.start records }) ∨
      Evolves (Cleared v.shared.index (processStep cfg v pc op a).2.2.shared.index) v
        (processStep cfg v pc op a).2.2 := by
  have hshifts := processStep_shifts cfg v pc op a
  generalize (processStep cfg v pc op a).2.2 = w at hshifts ⊢
  cases hshifts with
  | stays => exact .inr (Evolves.refl _ v)
  | released op' hdue => exact .inr (releaseLocked_evolves cfg v a.now a.opens)
  | dropped op' => exact .inr (Keeps.evolves (Keeps.refl _ _) fun page hp => List.mem_of_mem_filter hp)
  | reserved records lifetime =>
    obtain ⟨index, g, hframe⟩ := reserve_frame cfg v a.now records.length lifetime a.memLow
    rw [hframe]
    exact .inr (Keeps.evolves (Keeps.of_eq rfl rfl rfl) fun _ => id)
  | cleaned => exact .inr (cleanupLoop_evolves cfg a.opens cfg.tableMaxPages 0 v)
  | mapped _ name => exact .inr (getPageByName_evolves _ v name (a.opens name)).1
  | copied o r records => exact .inl ⟨o, r, records, rfl, rfl⟩
  | closed => exact .inr (Keeps.evolves (Keeps.refl _ _) nofun)

/-- The page that a process goes on with is mapped. -/
theorem processStep_mapped (cfg : TableConfig) (v : View α) (pc : Pc α) (op : Op α) (a : Action α) {name : Bytes} {o : ℕ}
    (hpage : (processStep cfg v pc op a).2.1.page cfg = some (name, o)) (hc : Coherent v) :
    Mapped (processStep cfg v pc op a).2.2.shared name o := by
  -- it goes on with a page only if it has just mapped it
  have hget (page : Bytes) {w : View α} (h : v.getPageByName page (a.opens page) = (.ok o, w)) :
      Mapped w.shared page o := by
    have hmapped := (getPageByName_evolves (fun _ => False) v page (a.opens page)).2 o (by rw [h]) hc
    rwa [h] at hmapped
  revert hpage
  unfold processStep
  cases pc with
  | openPage r records =>
    dsimp only
    rcases heq : v.getPageByName (cfg.pageName r.idx) (a.opens (cfg.pageName r.idx)) with ⟨err | o', w⟩
    · nofun
    · rintro ⟨⟩
      exact hget _ heq
  | scan todo =>
    cases todo with
    | nil => nofun
    | cons idx todo =>
      dsimp only
      rcases heq : v.getPageByName (v.shared.index idx).pageName (a.opens (v.shared.index idx).pageName) with
        ⟨err | o', w⟩
      · nofun
      · rintro ⟨⟩
        exact hget _ heq
  | openElement place =>
    dsimp only
    rcases heq : v.getPageByName place.pageName (a.opens place.pageName) with ⟨err | o', w⟩
    · nofun
    · rintro ⟨⟩
      exact hget _ heq
  | idle => cases op <;> nofun
  | release op' =>
    dsimp only
    split_ifs
    · rcases v.releaseLocked cfg a.now a.opens with ⟨_ | err, w⟩ <;> nofun
    · nofun
  | locked op' =>
    unfold lockedStep
    cases op' with
    | addRecord records lifetime =>
      dsimp only
      rcases v.reserve cfg a.now a.memLow records.length lifetime with ⟨err | r, w⟩ <;> nofun
    | cleanup =>
      dsimp only
      rcases cleanupLoop cfg a.opens cfg.tableMaxPages 0 v with ⟨_ | err, w⟩ <;> nofun
    | processRecords => nofun
    | getElementData place => nofun
  | _ => nofun

variable {s : Processes α} {a : Action α}

theorem step_process {pid : ℕ} {op : Op α} (hactor : a.actor = .process pid op) :
    s.step cfg a = s.put pid (processStep cfg (s.view pid) (s.processes pid).pc op a).2.1
      (processStep cfg (s.view pid) (s.processes pid).pc op a).2.2 := by
  rw [Processes.step, Processes.exec, hactor]

theorem attached_init : Attached cfg (Processes.init : Processes α) := by
  refine ⟨⟨?_, ?_⟩, ?_, ?_⟩
  · rintro name o ⟨⟩
  · rintro name name' o ⟨⟩
  · rintro pid page ⟨⟩
  · rintro pid name o ⟨⟩

/-- **What a step does to the objects**: it copies records into one, or keeps them all and removes the names of
cleared entries only. -/
theorem step_keeps (cfg : TableConfig) (s : Processes α) (a : Action α) :
    (∃ o r records, Copies s a o r records ∧ (s.step cfg a).shared = s.shared.copy o r.start records) ∨
      Keeps (Cleared s.shared.index (s.step cfg a).shared.index) s.shared (s.step cfg a).shared := by
  unfold Processes.step Processes.exec
  rcases hactor : a.actor with ⟨pid, op⟩ | value
  · dsimp only
    obtain ⟨o, r, records, hpc, hstep⟩ | hevolves := processStep_evolves cfg (s.view pid) (s.processes pid).pc op a
    · refine .inl ⟨o, r, records, ⟨pid, op, hactor, hpc⟩, ?_⟩
      rw [hstep]
      rfl
    · exact .inr hevolves.keeps
  · exact .inr (Keeps.refl _ _)

theorem step_mapped {name : Bytes} {o : ℕ} (h : Mapped s.shared name o) :
    Mapped (s.step cfg a).shared name o := by
  obtain ⟨o', r, records, -, hshared⟩ | hkeeps := step_keeps cfg s a
  · rw [hshared]
    exact copy_mapped h
  · exact hkeeps.mapped name o h

theorem Attached.step (h : Attached cfg s) (a : Action α) : Attached cfg (s.step cfg a) := by
  have hsound : Sound (s.step cfg a).shared := by
    obtain ⟨o, r, records, -, hshared⟩ | hkeeps := step_keeps cfg s a
    · rw [hshared]
      exact ⟨h.sound.allocated, h.sound.injective⟩
    · exact hkeeps.sound h.sound
  rcases hactor : a.actor with ⟨pid, op⟩ | value
  -- another table moves only `global_expire_at`
  swap
  · have hstep : s.step cfg a = { s with globalExpireAt := max s.globalExpireAt value } := by
      rw [Processes.step, Processes.exec, hactor]
    rw [hstep]
    exact ⟨h.sound, h.opened, h.held⟩
  have hstep : s.step cfg a = _ := step_process hactor
  have hmoves := processStep_evolves cfg (s.view pid) (s.processes pid).pc op a
  have hshared : (s.step cfg a).shared = (processStep cfg (s.view pid) (s.processes pid).pc op a).2.2.shared := by
    rw [hstep]
    rfl
  refine ⟨hsound, fun pid' page hpage => ?_, fun pid' name o hpc => ?_⟩
  · -- the process that moves evolves its pages, and the others keep theirs
    by_cases hpid : pid' = pid
    · rw [hpid, hstep, put_processes, Function.update_self] at hpage
      rw [hshared]
      obtain ⟨o, r, records, -, heq⟩ | hevolves := hmoves
      · rw [heq] at hpage ⊢
        exact copy_mapped (h.opened pid page hpage)
      · exact (hevolves.coherent (h.coherent pid)).opened page hpage
    · rw [hstep, put_processes, Function.update_of_ne hpid] at hpage
      exact step_mapped (h.opened pid' page hpage)
  · by_cases hpid : pid' = pid
    · rw [hpid, hstep, put_processes, Function.update_self] at hpc
      rw [hshared]
      exact processStep_mapped cfg _ _ op a hpc (h.coherent pid)
    · rw [hstep, put_processes, Function.update_of_ne hpid] at hpc
      exact step_mapped (h.held pid' name o hpc)

end Steps

end DealsServer
