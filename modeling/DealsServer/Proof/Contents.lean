import DealsServer.Proof.Pages

/-!
# Pages that nothing leads to

* `Alike`: two views differ only in the elements of pages that have no name and that the process has not open.
* Every operation has the same result on views that are alike, and leaves them alike (`Alike.addRecord`,
  `Alike.processRecords`, `Alike.getElementData`, `Alike.cleanup`).

`Alike.of_objects` is the rule for all of them: what is read or written at an object happens only after it was
mapped, and then it is `Reachable`.
-/

namespace DealsServer

variable {α : Type} {v v' w w' : View α}

/-- The object has a name, or the process has it open. -/
def Reachable (v : View α) (o : ℕ) : Prop :=
  (∃ name, v.shared.names name = some o) ∨ ∃ page ∈ v.own.openedPagesList, page.2 = o

/-- The views differ in the elements of objects that are not reachable, at most. -/
structure Alike (v v' : View α) : Prop where
  frame : v' = { v with shared := { v.shared with objects := v'.shared.objects } }
  sized : ∀ o, (v'.shared.objects o).sized = (v.shared.objects o).sized
  unlinked : ∀ o, (v'.shared.objects o).unlinked = (v.shared.objects o).unlinked
  elements : ∀ o, Reachable v o → (v'.shared.objects o).elements = (v.shared.objects o).elements

/-- An operation does the same on both. -/
def SameOutcome {β : Type} (x x' : β × View α) : Prop := x'.1 = x.1 ∧ Alike x.2 x'.2

theorem SameOutcome.cases {β : Type} {x x' : β × View α} (h : SameOutcome x x') :
    ∃ b w w', x = (b, w) ∧ x' = (b, w') ∧ Alike w w' :=
  ⟨x.1, x.2, x'.2, rfl, Prod.ext h.1 rfl, h.2⟩

theorem Alike.refl (v : View α) : Alike v v := ⟨rfl, fun _ => rfl, fun _ => rfl, fun _ _ => rfl⟩

theorem Alike.own (h : Alike v v') : v'.own = v.own := by rw [h.frame]

theorem Alike.index (h : Alike v v') : v'.shared.index = v.shared.index := by rw [h.frame]

theorem Alike.expirationCheck (h : Alike v v') : v'.shared.expirationCheck = v.shared.expirationCheck := by
  rw [h.frame]

theorem Alike.names (h : Alike v v') : v'.shared.names = v.shared.names := by rw [h.frame]

theorem Alike.nextObject (h : Alike v v') : v'.shared.nextObject = v.shared.nextObject := by rw [h.frame]

theorem Alike.globalExpireAt (h : Alike v v') : v'.globalExpireAt = v.globalExpireAt := by rw [h.frame]

/-- What differs are the objects. -/
theorem Alike.replaced (h : Alike v v') : ∃ objects, v' = { v with shared := { v.shared with objects := objects } } :=
  ⟨_, h.frame⟩

/-- A reachable object is the same in both. -/
theorem Alike.object (h : Alike v v') {o : ℕ} (ho : Reachable v o) : v'.shared.objects o = v.shared.objects o := by
  have hsized := h.sized o
  have hunlinked := h.unlinked o
  have helements := h.elements o ho
  rcases hl : v.shared.objects o with ⟨sized, unlinked, elements⟩
  rcases hr : v'.shared.objects o with ⟨sized', unlinked', elements'⟩
  rw [hl, hr] at hsized hunlinked helements
  dsimp only at hsized hunlinked helements
  rw [hsized, hunlinked, helements]

/-- **The rule for a change of both views**: an object is as it was and no more reachable than before, or it is
now the same in both. -/
theorem Alike.of_objects (h : Alike v v') (hframe : w' = { w with shared := { w.shared with objects := w'.shared.objects } })
    (hobjects : ∀ o, w'.shared.objects o = w.shared.objects o ∨
      w.shared.objects o = v.shared.objects o ∧ w'.shared.objects o = v'.shared.objects o ∧
        (Reachable w o → Reachable v o)) : Alike w w' := by
  refine ⟨hframe, fun o => ?_, fun o => ?_, fun o ho => ?_⟩
  · rcases hobjects o with heq | ⟨hl, hr, -⟩
    · rw [heq]
    · rw [hl, hr, h.sized]
  · rcases hobjects o with heq | ⟨hl, hr, -⟩
    · rw [heq]
    · rw [hl, hr, h.unlinked]
  · rcases hobjects o with heq | ⟨hl, hr, hreach⟩
    · rw [heq]
    · rw [hl, hr, h.elements o (hreach ho)]

/-- Index and timers written alike, names removed and pages closed. -/
theorem Alike.write (h : Alike v v') (index : ℕ → TablePageIndexElement) (check g : ℕ) (names : Bytes → Option ℕ)
    (own : TableLocal) (hnames : ∀ name o, names name = some o → v.shared.names name = some o)
    (hown : ∀ page ∈ own.openedPagesList, page ∈ v.own.openedPagesList) :
    Alike ⟨{ v.shared with index := index, expirationCheck := check, names := names }, g, own⟩
      ⟨{ v'.shared with index := index, expirationCheck := check, names := names }, g, own⟩ := by
  refine h.of_objects (by rw [h.frame]) fun o => .inr ⟨rfl, rfl, fun ho => ?_⟩
  rcases ho with ⟨name, hname⟩ | ⟨page, hpage, ho⟩
  · exact .inl ⟨name, hnames name o hname⟩
  · exact .inr ⟨page, hown page hpage, ho⟩

/-- An object replaced in both. -/
theorem Alike.update (h : Alike v v') (o : ℕ) (page : Page α) :
    Alike { v with shared := { v.shared with objects := Function.update v.shared.objects o page } }
      { v' with shared := { v'.shared with objects := Function.update v'.shared.objects o page } } := by
  refine h.of_objects (by rw [h.frame]) fun o' => ?_
  dsimp only
  by_cases heq : o' = o
  · left
    rw [heq, Function.update_self, Function.update_self]
  · right
    rw [Function.update_of_ne heq, Function.update_of_ne heq]
    exact ⟨rfl, rfl, id⟩

/-- A page that has a name is added to the open ones. -/
theorem Alike.attach (h : Alike v v') {name : Bytes} {o : ℕ} (hname : v.shared.names name = some o) (own : TableLocal)
    (hown : ∀ page ∈ own.openedPagesList, page ∈ v.own.openedPagesList ∨ page.2 = o) :
    Alike { v with own := own } { v' with own := own } := by
  refine h.of_objects (by rw [h.frame]) fun o' => .inr ⟨rfl, rfl, fun ho => ?_⟩
  rcases ho with hnamed | ⟨page, hpage, rfl⟩
  · exact .inl hnamed
  · rcases hown page hpage with hold | rfl
    · exact .inr ⟨page, hold, rfl⟩
    · exact .inl ⟨name, hname⟩

/-- What a process has of its own, with pages closed. -/
theorem Alike.setOwn (h : Alike v v') (own : TableLocal)
    (hown : ∀ page ∈ own.openedPagesList, page ∈ v.own.openedPagesList) :
    Alike { v with own := own } { v' with own := own } := by
  obtain ⟨objects, rfl⟩ := h.replaced
  exact h.write v.shared.index v.shared.expirationCheck v.globalExpireAt v.shared.names own (fun _ _ => id) hown

theorem Alike.dropUnlinked (h : Alike v v') : Alike v.dropUnlinked v'.dropUnlinked := by
  have hkept : (v'.own.openedPagesList.filter fun page => ¬ (v'.shared.objects page.2).unlinked) =
      v.own.openedPagesList.filter fun page => ¬ (v.shared.objects page.2).unlinked := by
    rw [h.own]
    congr 1
    funext page
    rw [h.unlinked]
  unfold View.dropUnlinked
  rw [hkept, h.own]
  exact h.setOwn _ fun _ => List.mem_of_mem_filter

section Operations

variable [Inhabited α] (cfg : TableConfig)

/-! ## Mapping pages -/

/-- The object created is the same in both, all zeros. -/
theorem Alike.create (h : Alike v v') (name : Bytes) (sized : Bool) :
    Alike { v with shared := v.shared.create name sized } { v' with shared := v'.shared.create name sized } := by
  refine h.of_objects (by rw [h.frame]; rfl) fun o => ?_
  dsimp only
  by_cases heq : o = v.shared.nextObject
  · left
    rw [heq, create_objects, create_objects, h.nextObject, Function.update_self, Function.update_self]
  · right
    rw [create_objects, create_objects, h.nextObject, Function.update_of_ne heq, Function.update_of_ne heq]
    refine ⟨rfl, rfl, fun ho => ho.imp_left ?_⟩
    rintro ⟨name', hname⟩
    dsimp only at hname
    rw [create_names] at hname
    by_cases hn : name' = name
    · rw [hn, Function.update_self] at hname
      exact absurd (Option.some.inj hname).symm heq
    · rw [Function.update_of_ne hn] at hname
      exact ⟨name', hname⟩

theorem Alike.openPage (h : Alike v v') (name : Bytes) (res : OpenResult) :
    (v'.shared.openPage name res).1 = (v.shared.openPage name res).1 ∧
      Alike { v with shared := (v.shared.openPage name res).2 } { v' with shared := (v'.shared.openPage name res).2 } := by
  unfold SharedMemory.openPage
  rw [h.names, h.nextObject]
  -- the checks before the name is looked up read nothing that the two views differ in
  by_cases hempty : name = []
  · simp only [if_pos hempty]
    exact ⟨trivial, h⟩
  simp only [if_neg hempty]
  by_cases hlong : name.length > mempageNameMaxLen - 6
  · simp only [if_pos hlong]
    exact ⟨trivial, h⟩
  simp only [if_neg hlong]
  by_cases hsem : res = .noSemaphore
  · simp only [if_pos hsem]
    exact ⟨trivial, h⟩
  simp only [if_neg hsem]
  by_cases hlock : res = .lockTimeout
  · simp only [if_pos hlock]
    exact ⟨trivial, h⟩
  simp only [if_neg hlock]
  by_cases hcannot : res = .cannotOpen
  · simp only [if_pos hcannot]
    exact ⟨trivial, h⟩
  simp only [if_neg hcannot]
  rcases hn : v.shared.names name with _ | o
  · -- the object is created, unless its size cannot be set
    cases res
    · exact ⟨rfl, h.create name true⟩
    · exact absurd rfl hsem
    · exact absurd rfl hlock
    · exact absurd rfl hcannot
    · exact ⟨rfl, h.create name false⟩
    · exact ⟨rfl, h⟩
    · exact ⟨rfl, h.create name true⟩
  · dsimp only
    rw [h.sized o]
    by_cases hsized : (v.shared.objects o).sized = false
    · simp only [if_pos hsized]
      refine ⟨trivial, ?_⟩
      -- an object without a size is unlinked, and only its name goes
      have hremoved (name' : Bytes) (o' : ℕ) (hname : Function.update v.shared.names name none name' = some o') :
          v.shared.names name' = some o' := by
        by_cases heq : name' = name
        · rw [heq, Function.update_self] at hname
          cases hname
        · rwa [Function.update_of_ne heq] at hname
      obtain ⟨objects, rfl⟩ := h.replaced
      exact h.write v.shared.index v.shared.expirationCheck v.globalExpireAt
        (Function.update v.shared.names name none) v.own hremoved fun _ hp => hp
    simp only [if_neg hsized]
    by_cases hmap : res = .cannotMap
    · simp only [if_pos hmap]
      exact ⟨trivial, h⟩
    · simp only [if_neg hmap]
      exact ⟨trivial, h⟩

/-- The page opened has its name. -/
theorem openPage_names {sh sh' : SharedMemory α} {name : Bytes} {res : OpenResult} {o : ℕ}
    (h : sh.openPage name res = (.ok o, sh')) : sh'.names name = some o := by
  obtain ⟨o', hn, -, hopen⟩ | ⟨-, hopen⟩ | ⟨err, sh', hopen, -⟩ := openPage_cases sh name res
  · rw [hopen] at h
    cases h
    exact hn
  · rw [hopen] at h
    cases h
    rw [create_names, Function.update_self]
  · rw [hopen] at h
    cases h

theorem Alike.getPageByName (h : Alike v v') (name : Bytes) (res : OpenResult) :
    SameOutcome (v.getPageByName name res) (v'.getPageByName name res) := by
  have hopen := h.openPage name res
  obtain ⟨objects, rfl⟩ := h.replaced
  unfold View.getPageByName
  dsimp only at hopen ⊢
  rcases v.own.localGetPageByName name with _ | o
  · dsimp only
    rcases hl : v.shared.openPage name res with ⟨r, sh⟩
    rcases hr : ({ v.shared with objects := objects } : SharedMemory α).openPage name res with ⟨r', sh'⟩
    rw [hl, hr] at hopen
    obtain ⟨heq, halike⟩ := hopen
    dsimp only at heq halike
    subst heq
    cases r' with
    | error err => exact ⟨rfl, halike⟩
    | ok o =>
      refine ⟨rfl, ?_⟩
      refine halike.attach (openPage_names hl) { v.own with openedPagesList := v.own.openedPagesList ++ [(name, o)] } ?_
      intro page hpage
      rcases List.mem_append.1 hpage with hold | hnew
      · exact .inl hold
      · exact .inr (congrArg Prod.snd (List.mem_singleton.1 hnew))
  · exact ⟨rfl, h⟩

/-- What was mapped is reachable. -/
theorem getPageByName_reachable {name : Bytes} {res : OpenResult} {o : ℕ}
    (h : v.getPageByName name res = (.ok o, w)) : Reachable w o := by
  obtain ⟨o', hlocal, hget⟩ | ⟨-, ⟨o', sh, hget, -⟩ | ⟨err, sh, hget, -⟩⟩ := getPageByName_cases v name res
  · rw [hget] at h
    cases h
    exact .inr ⟨(name, o), mem_of_local hlocal, rfl⟩
  · rw [hget] at h
    cases h
    exact .inr ⟨(name, o), List.mem_append_right _ List.mem_cons_self, rfl⟩
  · rw [hget] at h
    cases h

/-- Two processes map the same page, and find the same there. -/
theorem Alike.maps (h : Alike v v') (name : Bytes) (res : OpenResult) :
    ∃ r w w', v.getPageByName name res = (r, w) ∧ v'.getPageByName name res = (r, w') ∧ Alike w w' ∧
      ∀ o, r = .ok o → w'.shared.objects o = w.shared.objects o := by
  obtain ⟨r, w, w', hl, hr, hw⟩ := (h.getPageByName name res).cases
  refine ⟨r, w, w', hl, hr, hw, ?_⟩
  rintro o rfl
  exact hw.object (getPageByName_reachable hl)

/-! ## Releasing pages -/

theorem Alike.unlinkEntry (h : Alike v v') (idx : ℕ) (opens : Bytes → OpenResult) :
    SameOutcome (v.unlinkEntry cfg idx opens) (v'.unlinkEntry cfg idx opens) := by
  unfold View.unlinkEntry
  rw [h.index]
  -- the page is mapped to the same object on both sides
  obtain ⟨r, w, w', hl, hr, hw, hobject⟩ :=
    h.maps (v.shared.index idx).pageName (opens (v.shared.index idx).pageName)
  dsimp only
  rw [hl, hr]
  cases r with
  | error err => exact ⟨rfl, hw⟩
  | ok o =>
    refine ⟨rfl, ?_⟩
    have hmark := hw.update o { w.shared.objects o with unlinked := true }
    -- then its mark is set, its name goes, and the entry is cleared
    have hremoved (name' : Bytes) (o' : ℕ)
        (hname : Function.update w.shared.names (v.shared.index idx).pageName none name' = some o') :
        w.shared.names name' = some o' := by
      by_cases heq : name' = (v.shared.index idx).pageName
      · rw [heq, Function.update_self] at hname
        cases hname
      · rwa [Function.update_of_ne heq] at hname
    have hwrite := hmark.write (Function.update w.shared.index idx (.clearFull cfg)) w.shared.expirationCheck
      w.globalExpireAt (Function.update w.shared.names (v.shared.index idx).pageName none) w.own hremoved
      fun _ hp => hp
    obtain ⟨objects, rfl⟩ := hw.replaced
    dsimp only at hobject ⊢
    unfold SharedMemory.markUnlinked
    dsimp only
    rw [hobject o rfl]
    exact hwrite

theorem Alike.releaseLoop (opens : Bytes → OpenResult) (last n idx : ℕ) {v v' : View α} (h : Alike v v') :
    SameOutcome (releaseLoop cfg opens last n idx v) (releaseLoop cfg opens last n idx v') := by
  induction n generalizing idx v v' with
  | zero => exact ⟨rfl, h⟩
  | succ n ih =>
    unfold DealsServer.releaseLoop
    by_cases hlast : last < idx
    · rw [if_pos hlast, if_pos hlast]
      obtain ⟨err, w, w', hl, hr, hw⟩ := (h.unlinkEntry cfg idx opens).cases
      rw [hl, hr]
      cases err with
      | some err => exact ⟨rfl, hw⟩
      | none => exact ih (idx - 1) hw
    · rw [if_neg hlast, if_neg hlast]
      exact ⟨rfl, h⟩

theorem Alike.releaseLocked (h : Alike v v') (now : ℕ) (opens : Bytes → OpenResult) :
    SameOutcome (v.releaseLocked cfg now opens) (v'.releaseLocked cfg now opens) := by
  have htimer := h.setOwn { v.own with timeToCheckPageExpire := (now + checkExpiredPagesIntervalSec) % 2 ^ 32 }
    fun _ hp => hp
  have hcheck := htimer.write v.shared.index ((now + checkExpiredPagesIntervalSec) % 2 ^ 32) v.globalExpireAt
    v.shared.names _ (fun _ _ => id) fun _ hp => hp
  obtain ⟨objects, rfl⟩ := h.replaced
  unfold View.releaseLocked
  dsimp only at htimer hcheck ⊢
  by_cases hdue : v.shared.expirationCheck ≤ now
  · rw [if_pos hdue, if_pos hdue]
    rcases lastData v.shared.index v.globalExpireAt now cfg.tableMaxPages 0 0 with ⟨idx, last⟩
    dsimp only
    by_cases hloop : idx > 0 ∧ last < idx - 1
    · rw [if_pos hloop, if_pos hloop]
      exact hcheck.releaseLoop cfg opens last removeExpiredPagesAtOnce (idx - 1)
    · rw [if_neg hloop, if_neg hloop]
      exact ⟨rfl, hcheck⟩
  · rw [if_neg hdue, if_neg hdue]
    exact ⟨rfl, htimer⟩

/-- `release_expired_memory_pages` does the same on both. -/
theorem Alike.release (h : Alike v v') (c : Calls) :
    SameOutcome (v.releaseExpiredMemoryPages cfg c) (v'.releaseExpiredMemoryPages cfg c) := by
  unfold View.releaseExpiredMemoryPages View.checkDue
  rw [h.own]
  split_ifs with hdue hlock
  · obtain ⟨err, w, w', hl, hr, hw⟩ := (h.releaseLocked cfg c.releaseNow c.opens).cases
    rw [hl, hr]
    cases err with
    | some err => exact ⟨rfl, hw⟩
    | none => exact ⟨rfl, hw.dropUnlinked⟩
  · exact ⟨rfl, h.setOwn _ fun _ hp => hp⟩
  · exact ⟨rfl, h⟩

/-! ## Adding records -/

omit [Inhabited α] in
/-- The locked section of `addRecord` reads and writes the index only. -/
theorem Alike.reserve (h : Alike v v') (now count lifetime : ℕ) (memLow : Bool) :
    SameOutcome (v.reserve cfg now memLow count lifetime) (v'.reserve cfg now memLow count lifetime) := by
  obtain ⟨objects, rfl⟩ := h.replaced
  have hselect : ({ v with shared := { v.shared with objects := objects } } : View α).selectPage cfg now memLow count =
      v.selectPage cfg now memLow count := rfl
  unfold View.reserve
  rw [hselect]
  by_cases hcount : count > cfg.maxElementsInPage
  · rw [if_pos hcount, if_pos hcount]
    exact ⟨rfl, h⟩
  rw [if_neg hcount, if_neg hcount]
  rcases v.selectPage cfg now memLow count with ⟨type, idx⟩
  dsimp only
  by_cases hunknown : type = .unknown
  · rw [if_pos hunknown, if_pos hunknown]
    exact ⟨rfl, h⟩
  rw [if_neg hunknown, if_neg hunknown]
  have hwrite (record : TablePageIndexElement) (g : ℕ) := h.write (Function.update v.shared.index idx record)
    v.shared.expirationCheck g v.shared.names v.own (fun _ _ => id) fun _ hp => hp
  by_cases hold : type = .oldest
  · simp only [if_pos hold, updateGlobalExpire_eq]
    exact ⟨rfl, hwrite _ _⟩
  · simp only [if_neg hold]
    exact ⟨rfl, hwrite _ _⟩

/-- **`addRecord` does the same on views that are alike.** -/
theorem Alike.addRecord (h : Alike v v') (c : Calls) (records : List α) (lifetime : ℕ) :
    SameOutcome (v.addRecord cfg c records lifetime) (v'.addRecord cfg c records lifetime) := by
  unfold View.addRecord
  obtain ⟨err, v₁, v₁', hl, hr, h₁⟩ := (h.release cfg c).cases
  rw [hl, hr]
  cases err with
  | some err => exact ⟨rfl, h₁⟩
  | none =>
    dsimp only
    by_cases hlock : ¬ c.lock ∧ records.length ≤ cfg.maxElementsInPage
    · rw [if_pos hlock, if_pos hlock]
      exact ⟨rfl, h₁⟩
    rw [if_neg hlock, if_neg hlock]
    obtain ⟨res, v₂, v₂', hl, hr, h₂⟩ := (h₁.reserve cfg c.now records.length lifetime c.memLow).cases
    rw [hl, hr]
    cases res with
    | error err => exact ⟨rfl, h₂⟩
    | ok r =>
      dsimp only
      obtain ⟨page, v₃, v₃', hl, hr, h₃, hobject⟩ := h₂.maps (cfg.pageName r.idx) (c.opens (cfg.pageName r.idx))
      rw [hl, hr]
      cases page with
      | error err => exact ⟨rfl, h₃⟩
      | ok o =>
        refine ⟨rfl, ?_⟩
        dsimp only
        unfold SharedMemory.copy
        rw [hobject o rfl]
        exact h₃.update o _

/-! ## Reading records -/

theorem Alike.scanLoop (opens : Bytes → OpenResult) (todo : List ℕ) {v v' : View α} (h : Alike v v') :
    SameOutcome (v.scanLoop cfg opens todo) (v'.scanLoop cfg opens todo) := by
  induction todo generalizing v v' with
  | nil => exact ⟨rfl, h⟩
  | cons idx rest ih =>
    unfold View.scanLoop
    rw [h.index]
    dsimp only
    obtain ⟨page, w, w', hl, hr, hw, hobject⟩ :=
      h.maps (v.shared.index idx).pageName (opens (v.shared.index idx).pageName)
    rw [hl, hr]
    cases page with
    | error err => exact ⟨rfl, hw⟩
    | ok o =>
      -- the page is read when the other pages are mapped
      obtain ⟨result, u, u', hl, hr, hu⟩ := (ih hw).cases
      have hread (start size : ℕ) : w'.readElements o start size = w.readElements o start size := by
        unfold View.readElements
        rw [hobject o rfl]
      dsimp only
      rw [hl, hr]
      cases result with
      | error err => exact ⟨rfl, hu⟩
      | ok elements => exact ⟨by dsimp only; rw [hread], hu⟩

/-- **`processRecords` delivers the same on views that are alike.** -/
theorem Alike.processRecords (h : Alike v v') (c : Calls) :
    SameOutcome (v.processRecords cfg c) (v'.processRecords cfg c) := by
  unfold View.processRecords
  obtain ⟨err, w, w', hl, hr, hw⟩ := (h.release cfg c).cases
  rw [hl, hr]
  cases err with
  | some err => exact ⟨rfl, hw⟩
  | none =>
    dsimp only
    have hselected : w'.recordsToScan cfg c.now = w.recordsToScan cfg c.now := by
      unfold View.recordsToScan
      rw [hw.index, hw.globalExpireAt]
    rw [hselected]
    split_ifs
    · exact hw.scanLoop cfg c.opens _
    · exact ⟨rfl, hw⟩

/-- **`get_element_data` reads the same from views that are alike.** -/
theorem Alike.getElementData (h : Alike v v') (place : Location) (opens : Bytes → OpenResult) :
    SameOutcome (v.getElementData place opens) (v'.getElementData place opens) := by
  unfold View.getElementData
  obtain ⟨page, w, w', hl, hr, hw, hobject⟩ := h.maps place.pageName (opens place.pageName)
  rw [hl, hr]
  cases page with
  | error err => exact ⟨rfl, hw⟩
  | ok o =>
    refine ⟨?_, hw⟩
    dsimp only
    unfold View.readElements
    rw [hobject o rfl]

/-! ## Cleaning up -/

theorem Alike.cleanupLoop (opens : Bytes → OpenResult) (n idx : ℕ) {v v' : View α} (h : Alike v v') :
    SameOutcome (cleanupLoop cfg opens n idx v) (cleanupLoop cfg opens n idx v') := by
  induction n generalizing idx v v' with
  | zero => exact ⟨rfl, h⟩
  | succ n ih =>
    unfold DealsServer.cleanupLoop
    rw [h.index]
    by_cases hused : (v.shared.index idx).expireAt > 0
    · rw [if_pos hused, if_pos hused]
      obtain ⟨err, w, w', hl, hr, hw⟩ := (h.unlinkEntry cfg idx opens).cases
      rw [hl, hr]
      cases err with
      | some err => exact ⟨rfl, hw⟩
      | none => exact ih (idx + 1) hw
    · rw [if_neg hused, if_neg hused]
      exact ⟨rfl, h⟩

/-- **`cleanup` does the same on views that are alike.** -/
theorem Alike.cleanup (h : Alike v v') (c : Calls) : SameOutcome (v.cleanup cfg c) (v'.cleanup cfg c) := by
  unfold View.cleanup
  split_ifs
  · obtain ⟨err, w, w', hl, hr, hw⟩ := (h.cleanupLoop cfg c.opens cfg.tableMaxPages 0).cases
    rw [hl, hr]
    cases err with
    | some err => exact ⟨rfl, hw⟩
    | none =>
      refine ⟨rfl, ?_⟩
      dsimp only
      unfold View.releaseOpenPages
      rw [hw.own]
      exact hw.setOwn _ nofun
  · exact ⟨rfl, h⟩

end Operations

end DealsServer
