import DealsServer.Lib.Retention
import DealsServer.Proof.KeptRecords

/-!
# What a table has for a search

`View.stock` are the elements a search has to choose from, entry by entry, whoever maps their pages.

* `Kempt.release`: the maintenance leaves a later search what it had.
* `Alone.processRecords_stock`: a scan that does not fail delivers the stock.
-/

namespace DealsServer

variable {α : Type} {cfg : TableConfig} {v v' : View α}

/-! ## The stock -/

/-- A scan at the clock `now` comes to the entry and finds it live. -/
structure Live (cfg : TableConfig) (v : View α) (now idx : ℕ) : Prop where
  range : idx < cfg.tableMaxPages
  used : ∀ j ≤ idx, 0 < (v.shared.index j).expireAt
  clock : now < (v.shared.index idx).expireAt
  global : v.globalExpireAt < (v.shared.index idx).expireAt

instance (cfg : TableConfig) (v : View α) (now : ℕ) : DecidablePred (Live cfg v now) := fun idx =>
  decidable_of_iff (idx < cfg.tableMaxPages ∧ (∀ j ≤ idx, 0 < (v.shared.index j).expireAt) ∧
      now < (v.shared.index idx).expireAt ∧ v.globalExpireAt < (v.shared.index idx).expireAt)
    ⟨fun ⟨hrange, hused, hclock, hglobal⟩ => ⟨hrange, hused, hclock, hglobal⟩,
      fun ⟨hrange, hused, hclock, hglobal⟩ => ⟨hrange, hused, hclock, hglobal⟩⟩

section Stock

variable [Inhabited α]

/-- The element in a slot of the page that has the name. A page that is not there, or without its size, comes to be
filled with zeros. -/
def SharedMemory.element (sh : SharedMemory α) (name : Bytes) (i : ℕ) : α :=
  match sh.names name with
  | some o => if (sh.objects o).sized then (sh.objects o).elements i else default
  | none => default

/-- The elements in the slots of the entry that are handed out. -/
def View.slots (cfg : TableConfig) (v : View α) (idx : ℕ) : List α :=
  (List.range ((v.shared.index idx).used cfg)).map (v.shared.element (v.shared.index idx).pageName)

/-- What the entry has for a search at the clock `now`. -/
def View.shown (cfg : TableConfig) (v : View α) (now idx : ℕ) : List α :=
  if Live cfg v now idx then v.slots cfg idx else []

/-- The elements that a search at the clock `now` has to choose from. -/
def View.stock (cfg : TableConfig) (v : View α) (now : ℕ) : List α :=
  (List.range cfg.tableMaxPages).flatMap (v.shown cfg now)

omit [Inhabited α] in
/-- The loop over the index selects the live entries. -/
theorem recordsToScan_eq_filter (now n idx : ℕ) (hn : idx + n = cfg.tableMaxPages)
    (hused : ∀ j < idx, 0 < (v.shared.index j).expireAt) :
    recordsToScan v.shared.index v.globalExpireAt now n idx = (List.range' idx n).filter (Live cfg v now) := by
  induction n generalizing idx with
  | zero => rfl
  | succ n ih =>
    unfold recordsToScan
    by_cases hzero : (v.shared.index idx).expireAt = 0
    · rw [if_pos hzero]
      symm
      rw [List.filter_eq_nil_iff]
      intro k hk hlive
      have hkused := (of_decide_eq_true hlive).used idx (List.mem_range'_1.1 hk).1
      omega
    rw [if_neg hzero, List.range'_succ]
    have hrest := ih (idx + 1) (by omega) fun j hj => by
      rcases Nat.eq_or_lt_of_le (Nat.le_of_lt_succ hj) with rfl | hlt
      · omega
      · exact hused j hlt
    by_cases hlive : (v.shared.index idx).expireAt > now ∧ (v.shared.index idx).expireAt > v.globalExpireAt
    · have hfirst : Live cfg v now idx := by
        refine ⟨by omega, fun j hj => ?_, hlive.1, hlive.2⟩
        rcases Nat.eq_or_lt_of_le hj with rfl | hlt
        · omega
        · exact hused j hlt
      rw [if_pos hlive, List.filter_cons_of_pos (by simpa using hfirst), hrest]
    · rw [if_neg hlive, List.filter_cons_of_neg (by simpa using fun h : Live cfg v now idx => hlive ⟨h.clock, h.global⟩),
        hrest]

theorem flatMap_shown (now : ℕ) (l : List ℕ) :
    l.flatMap (v.shown cfg now) = (l.filter (Live cfg v now)).flatMap (v.slots cfg) :=
  Retention.flatMap_keep (Live cfg v now) (v.slots cfg) l

/-- The stock, as the loop over the index reads it. -/
theorem stock_eq_scan (cfg : TableConfig) (v : View α) (now : ℕ) :
    v.stock cfg now = (v.recordsToScan cfg now).flatMap (v.slots cfg) := by
  have hscan : v.recordsToScan cfg now = (List.range' 0 cfg.tableMaxPages).filter (Live cfg v now) := by
    unfold View.recordsToScan
    exact recordsToScan_eq_filter now cfg.tableMaxPages 0 (Nat.zero_add _) fun j hj => absurd hj (Nat.not_lt_zero j)
  rw [hscan, View.stock, flatMap_shown, List.range_eq_range']

/-- Entries that are live for both have the same to show. -/
theorem shown_congr {now idx : ℕ} (hlive : Live cfg v' now idx ↔ Live cfg v now idx)
    (hindex : Live cfg v now idx → v'.shared.index idx = v.shared.index idx)
    (helement : Live cfg v now idx →
      v'.shared.element (v.shared.index idx).pageName = v.shared.element (v.shared.index idx).pageName) :
    v'.shown cfg now idx = v.shown cfg now idx := by
  unfold View.shown
  by_cases h : Live cfg v now idx
  · rw [if_pos (hlive.2 h), if_pos h, View.slots, View.slots, hindex h, helement h]
  · rw [if_neg (fun h' => h (hlive.1 h')), if_neg h]

/-- Timers and open pages of the process do not matter. -/
theorem shown_own (v : View α) (own : TableLocal) : ({ v with own := own } : View α).shown cfg = v.shown cfg := by
  funext now idx
  have hlive : Live cfg ({ v with own := own } : View α) now idx ↔ Live cfg v now idx :=
    ⟨fun h => ⟨h.range, h.used, h.clock, h.global⟩, fun h => ⟨h.range, h.used, h.clock, h.global⟩⟩
  exact shown_congr hlive (fun _ => rfl) fun _ => rfl

/-! ## Mapping pages -/

theorem element_of_eq {sh sh' : SharedMemory α} {name : Bytes} (hn : sh'.names name = sh.names name)
    (ho : ∀ o, sh.names name = some o → (sh'.objects o).sized = (sh.objects o).sized ∧
      (sh'.objects o).elements = (sh.objects o).elements) : sh'.element name = sh.element name := by
  funext i
  unfold SharedMemory.element
  rw [hn]
  rcases hname : sh.names name with _ | o
  · rfl
  · obtain ⟨hsized, helements⟩ := ho o hname
    dsimp only
    rw [hsized, helements]

/-- A new page is filled with zeros, as one that is not there. -/
theorem create_element {sh : SharedMemory α} (hs : Sound sh) {name : Bytes} (hfree : sh.names name = none)
    (sized : Bool) : (sh.create name sized).element = sh.element := by
  funext name'
  by_cases heq : name' = name
  · subst heq
    funext i
    unfold SharedMemory.element
    rw [create_names, Function.update_self, hfree]
    dsimp only
    rw [create_objects, Function.update_self]
    simp
  · refine element_of_eq ?_ fun o ho => ?_
    · rw [create_names, Function.update_of_ne heq]
    · have hne : o ≠ sh.nextObject := (hs.allocated _ _ ho).ne
      rw [create_objects, Function.update_of_ne hne]
      exact ⟨rfl, rfl⟩

/-- Mapping a page, or failing to, changes no element. -/
theorem getPageByName_element (hs : Sound v.shared) (name : Bytes) (res : OpenResult) :
    (v.getPageByName name res).2.shared.element = v.shared.element := by
  obtain ⟨o, -, h⟩ | ⟨-, ⟨o, sh, h, ⟨-, -, rfl⟩ | ⟨hfree, -, rfl⟩⟩ | ⟨err, sh, h, hfail⟩⟩ :=
    getPageByName_cases v name res
  · rw [h]
  · rw [h]
  · rw [h]
    exact create_element hs hfree true
  · rw [h]
    obtain rfl | ⟨sized, hfree, rfl⟩ | ⟨o, hn, hunsized, rfl⟩ := hfail.effect
    · rfl
    · exact create_element hs hfree sized
    · -- the page had no size, so it had no elements either
      funext name'
      by_cases heq : name' = name
      · subst heq
        funext i
        unfold SharedMemory.element
        rw [unlink_names, Function.update_self, hn]
        simp [hunsized]
      · refine element_of_eq ?_ fun _ _ => ⟨rfl, rfl⟩
        rw [unlink_names, Function.update_of_ne heq]

/-- Mapping a page, or failing to, leaves a search what it had. -/
theorem getPageByName_shown (cfg : TableConfig) (hs : Sound v.shared) (name : Bytes) (res : OpenResult) :
    (v.getPageByName name res).2.shown cfg = v.shown cfg := by
  have hsame := getPageByName_same v name res
  have helement := getPageByName_element hs name res
  funext now idx
  refine shown_congr ?_ (fun _ => congrFun hsame.index_eq idx) fun _ => congrFun helement _
  constructor <;> rintro ⟨hrange, hused, hclock, hglobal⟩
  · rw [hsame.index_eq] at hused hclock hglobal
    exact ⟨hrange, hused, hclock, hsame.global_eq ▸ hglobal⟩
  · rw [← hsame.index_eq] at hused hclock hglobal
    exact ⟨hrange, hused, hclock, hsame.global_eq ▸ hglobal⟩

/-! ## The maintenance -/

/-- Unlinking the page of an entry changes no other page. -/
theorem unlinkEntry_element (cfg : TableConfig) (hs : Sound v.shared) {idx : ℕ} (opens : Bytes → OpenResult) {name : Bytes}
    (hne : (v.shared.index idx).pageName ≠ name) :
    (v.unlinkEntry cfg idx opens).2.shared.element name = v.shared.element name := by
  have hmapped := getPageByName_element hs (v.shared.index idx).pageName (opens (v.shared.index idx).pageName)
  unfold View.unlinkEntry
  dsimp only
  rcases hget : v.getPageByName (v.shared.index idx).pageName (opens (v.shared.index idx).pageName) with ⟨err | o, w⟩
  · rw [hget] at hmapped
    exact congrFun hmapped name
  · rw [hget] at hmapped
    refine Eq.trans (element_of_eq ?_ fun o' _ => ?_) (congrFun hmapped name)
    · exact Function.update_of_ne hne.symm ..
    · show ((w.shared.markUnlinked o).objects o').sized = _ ∧ ((w.shared.markUnlinked o).objects o').elements = _
      rw [markUnlinked_objects]
      by_cases heq : o' = o
      · rw [heq, Function.update_self]
        exact ⟨rfl, rfl⟩
      · rw [Function.update_of_ne heq]
        exact ⟨rfl, rfl⟩

theorem releaseLoop_element (opens : Bytes → OpenResult) (last n idx : ℕ) {v : View α} (hs : Sound v.shared)
    (hused : ∀ j, last < j → j ≤ idx → 0 < (v.shared.index j).expireAt) {name : Bytes}
    (hne : ∀ j, last < j → j ≤ idx → (v.shared.index j).pageName ≠ name) :
    (releaseLoop cfg opens last n idx v).2.shared.element name = v.shared.element name := by
  induction n generalizing idx v with
  | zero => rfl
  | succ n ih =>
    unfold releaseLoop
    by_cases hlast : last < idx
    swap
    · rw [if_neg hlast]
    rw [if_pos hlast]
    have hunlink := unlinkEntry_element cfg hs opens (hne idx hlast le_rfl)
    have hevolves := unlinkEntry_evolves cfg v idx opens (hused idx hlast le_rfl)
    obtain ⟨v₁, heq, hclear⟩ | ⟨err, v₁, heq, -, -⟩ := unlinkEntry_cases cfg v idx opens
    · rw [heq] at hunlink hevolves ⊢
      -- the entries that are left are as they were
      have hindex (j : ℕ) (hj : j ≤ idx - 1) (hpos : last < j) : v₁.shared.index j = v.shared.index j := by
        rw [hclear.index_eq, if_neg (by omega)]
      refine (ih (idx - 1) (hevolves.keeps.sound hs) (fun j hj hji => ?_) fun j hj hji => ?_).trans hunlink
      · rw [hindex j hji hj]
        exact hused j hj (by omega)
      · rw [hindex j hji hj]
        exact hne j hj (by omega)
    · rw [heq] at hunlink ⊢
      exact hunlink

/-- **The maintenance changes no page that is still needed.** -/
theorem releaseLocked_element (hs : Sound v.shared) (now : ℕ) (opens : Bytes → OpenResult) {name : Bytes}
    (hne : ∀ j, 0 < j → j < cfg.tableMaxPages → 0 < (v.shared.index j).expireAt →
      ¬ Needed (v.shared.index j) v.globalExpireAt now → (v.shared.index j).pageName ≠ name) :
    (v.releaseLocked cfg now opens).2.shared.element name = v.shared.element name := by
  unfold View.releaseLocked
  dsimp only
  by_cases hdue : v.shared.expirationCheck ≤ now
  swap
  · rw [if_neg hdue]
  rw [if_pos hdue]
  rcases hdata : lastData v.shared.index v.globalExpireAt now cfg.tableMaxPages 0 0 with ⟨e, l⟩
  obtain ⟨-, hbound, hused, -, -, hneed⟩ := lastData_cases _ _ _ _ _ _ le_rfl hdata
  dsimp only
  by_cases hloop : e > 0 ∧ l < e - 1
  swap
  · rw [if_neg hloop]
    rfl
  rw [if_pos hloop]
  have hsound : Sound { v.shared with expirationCheck := (now + checkExpiredPagesIntervalSec) % 2 ^ 32 } :=
    ⟨hs.allocated, hs.injective⟩
  refine (releaseLoop_element opens l removeExpiredPagesAtOnce (e - 1)
    (v := ⟨{ v.shared with expirationCheck := (now + checkExpiredPagesIntervalSec) % 2 ^ 32 }, v.globalExpireAt,
      { v.own with timeToCheckPageExpire := (now + checkExpiredPagesIntervalSec) % 2 ^ 32 }⟩) hsound
    (fun j _ hj => hused j (Nat.zero_le j) (by omega)) fun j hj hje => ?_).trans rfl
  refine hne j (by omega) (by omega) (hused j (Nat.zero_le j) (by omega)) fun hn => ?_
  have := hneed j (Nat.zero_le j) (by omega) hn
  omega

/-- What every run of a table keeps, and what it keeps until the last minute before the clock overflows. -/
structure Kempt (cfg : TableConfig) (v : View α) : Prop where
  sound : Sound v.shared
  bounded : Bounded cfg v.shared.index
  formed : NamesFormed cfg v.shared.index
  named : ∀ j, 0 < j → j < cfg.tableMaxPages → 0 < (v.shared.index j).expireAt →
    (v.shared.index j).pageName = cfg.pageName j
  early : ∀ j < cfg.tableMaxPages, (v.shared.index j).expireAt + removeExpiredPagesDelaySec < 2 ^ 32

omit [Inhabited α] in
/-- A live entry is needed. -/
theorem Live.needed {now now' idx : ℕ} (h : Live cfg v now' idx) (hnow : now ≤ now')
    (hearly : (v.shared.index idx).expireAt + removeExpiredPagesDelaySec < 2 ^ 32) :
    Needed (v.shared.index idx) v.globalExpireAt now := by
  have hclock := h.clock
  have hglobal := h.global
  refine ⟨by omega, ?_⟩
  rw [Nat.mod_eq_of_lt hearly]
  omega

omit [Inhabited α] in
/-- The maintenance leaves the entries that are live. -/
theorem Releases.live_iff {now now' b e : ℕ} (h : Releases cfg v v' now b e) (hnow : now ≤ now')
    (hearly : ∀ j < cfg.tableMaxPages, (v.shared.index j).expireAt + removeExpiredPagesDelaySec < 2 ^ 32) (idx : ℕ) :
    Live cfg v' now' idx ↔ Live cfg v now' idx := by
  constructor
  · intro hlive
    have hsame (j : ℕ) (hj : j ≤ idx) : v'.shared.index j = v.shared.index j := h.clears.same (hlive.used j hj)
    refine ⟨hlive.range, fun j hj => ?_, ?_, ?_⟩
    · rw [← hsame j hj]
      exact hlive.used j hj
    · rw [← hsame idx le_rfl]
      exact hlive.clock
    · rw [← hsame idx le_rfl, ← h.clears.global_eq]
      exact hlive.global
  · intro hlive
    have hkept (j : ℕ) (hj : j ≤ idx) : ¬ (b ≤ j ∧ j < e) := by
      rintro ⟨hbj, hje⟩
      by_cases hidx : idx < e
      · have := h.needed idx hidx (hlive.needed hnow (hearly idx hlive.range))
        omega
      · -- the scan would have stopped at the entry behind the cleared ones
        have hstop := h.stop (by omega) (by have := hlive.range; omega)
        have := hlive.used e (by omega)
        omega
    have hsame (j : ℕ) (hj : j ≤ idx) : v'.shared.index j = v.shared.index j := by
      rw [h.clears.index_eq, if_neg (hkept j hj)]
    refine ⟨hlive.range, fun j hj => ?_, ?_, ?_⟩
    · rw [hsame j hj]
      exact hlive.used j hj
    · rw [hsame idx le_rfl]
      exact hlive.clock
    · rw [hsame idx le_rfl, h.clears.global_eq]
      exact hlive.global

omit [Inhabited α] in
theorem Kempt.clears (h : Kempt cfg v) {lo hi : ℕ} (hclears : Clears cfg v v' lo hi) (hsound : Sound v'.shared) :
    Kempt cfg v' := by
  refine ⟨hsound, hclears.bounded h.bounded, hclears.namesFormed h.formed, fun j hpos hj hused => ?_, fun j hj => ?_⟩
  · have hsame := hclears.same hused
    rw [hsame] at hused ⊢
    exact h.named j hpos hj hused
  · rw [hclears.index_eq]
    split_ifs
    · exact delay_lt
    · exact h.early j hj

theorem Kempt.releaseLocked (h : Kempt cfg v) (now : ℕ) (opens : Bytes → OpenResult) :
    Kempt cfg (v.releaseLocked cfg now opens).2 := by
  obtain ⟨b, e, hrel, -⟩ := releaseLocked_index cfg v now opens
  exact h.clears hrel.clears ((releaseLocked_evolves cfg v now opens).keeps.sound h.sound)

theorem Kempt.releaseLocked_shown (h : Kempt cfg v) {now now' : ℕ} (hnow : now ≤ now')
    (opens : Bytes → OpenResult) :
    (v.releaseLocked cfg now opens).2.shown cfg now' = v.shown cfg now' := by
  obtain ⟨b, e, hrel, -⟩ := releaseLocked_index cfg v now opens
  funext idx
  have hlive := hrel.live_iff hnow h.early idx
  refine shown_congr hlive (fun hl => hrel.clears.same ((hlive.2 hl).used idx le_rfl)) fun hl => ?_
  -- a page with the name of a live entry is not among those that are removed
  refine releaseLocked_element h.sound now opens fun j hpos hj hused hnot heq => ?_
  rw [h.named j hpos hj hused] at heq
  rcases h.formed idx with hnil | hname
  · rw [hnil] at heq
    exact pageName_ne_nil j heq
  · rw [hname] at heq
    obtain rfl := pageName_injective heq
    exact hnot (hl.needed hnow (h.early _ hj))

omit [Inhabited α] in
theorem Kempt.of_shared (h : Kempt cfg v) (hshared : v'.shared = v.shared) : Kempt cfg v' := by
  obtain ⟨hsound, hbounded, hformed, hnamed, hearly⟩ := h
  constructor <;> rwa [hshared]

/-- **The maintenance leaves a later search what it had.** -/
theorem Kempt.release (h : Kempt cfg v) (c : Calls) :
    Kempt cfg (v.releaseExpiredMemoryPages cfg c).2 ∧
      ∀ now, c.releaseNow ≤ now → (v.releaseExpiredMemoryPages cfg c).2.shown cfg now = v.shown cfg now := by
  have horder := h.releaseLocked c.releaseNow c.opens
  have hshown (now : ℕ) (hnow : c.releaseNow ≤ now) := h.releaseLocked_shown hnow c.opens
  unfold View.releaseExpiredMemoryPages
  split_ifs
  · rcases hrel : v.releaseLocked cfg c.releaseNow c.opens with ⟨_ | err, w⟩
    · rw [hrel] at horder hshown
      refine ⟨horder.of_shared rfl, fun now hnow => ?_⟩
      exact (congrFun (shown_own w _) now).trans (hshown now hnow)
    · rw [hrel] at horder hshown
      exact ⟨horder, hshown⟩
  · exact ⟨h.of_shared rfl, fun now _ => congrFun (shown_own v _) now⟩
  · exact ⟨h, fun now _ => rfl⟩

theorem release_global (cfg : TableConfig) (v : View α) (c : Calls) :
    (v.releaseExpiredMemoryPages cfg c).2.globalExpireAt = v.globalExpireAt := by
  obtain ⟨b, e, hrel, -⟩ := releaseLocked_index cfg v c.releaseNow c.opens
  have hglobal := hrel.clears.global_eq
  unfold View.releaseExpiredMemoryPages
  split_ifs
  · rcases hlocked : v.releaseLocked cfg c.releaseNow c.opens with ⟨_ | err, w⟩
    · rw [hlocked] at hglobal
      exact hglobal
    · rw [hlocked] at hglobal
      exact hglobal
  · rfl
  · rfl

/-! ## The operations keep the order -/

theorem Kempt.getPageByName (h : Kempt cfg v) (name : Bytes) (res : OpenResult) :
    Kempt cfg (v.getPageByName name res).2 := by
  have hindex := (getPageByName_same v name res).index_eq
  refine ⟨(getPageByName_evolves (fun _ => False) v name res).1.keeps.sound h.sound, ?_, ?_, ?_, ?_⟩ <;> rw [hindex]
  · exact h.bounded
  · exact h.formed
  · exact h.named
  · exact h.early

omit [Inhabited α] in
theorem Kempt.reserves (h : Kempt cfg v) {now count lifetime : ℕ} {memLow : Bool} {r : Reservation}
    (hr : Reserves cfg v v' now memLow count lifetime r)
    (hearly : now + cfg.lifetime lifetime + removeExpiredPagesDelaySec < 2 ^ 32) : Kempt cfg v' := by
  refine ⟨?_, hr.bounded h.bounded, hr.namesFormed h.formed, fun j hpos hj hused => ?_, fun j hj => hr.early hearly (h.early j hj)⟩
  · rw [hr.frame]
    exact ⟨h.sound.allocated, h.sound.injective⟩
  · by_cases heq : j = r.idx
    · rw [heq] at hpos hj ⊢
      exact hr.named h.formed hpos (h.named _ hpos hj)
    · rw [hr.others j heq] at hused ⊢
      exact h.named j hpos hj hused

theorem Kempt.addRecord (h : Kempt cfg v) {c : Calls} (records : List α) {lifetime : ℕ}
    (hearly : c.now + cfg.lifetime lifetime + removeExpiredPagesDelaySec < 2 ^ 32) :
    Kempt cfg (v.addRecord cfg c records lifetime).2 := by
  obtain ⟨h₁, -⟩ := h.release c
  obtain ⟨err, v₁, hrel, hadd⟩ | ⟨v₁, hrel, ⟨err, hadd, -⟩ | ⟨r, v₂, -, hres, hopen⟩⟩ :=
    addRecord_cases cfg v c records lifetime
  · rw [hrel] at h₁
    rw [hadd]
    exact h₁
  · rw [hrel] at h₁
    rw [hadd]
    exact h₁
  rw [hrel] at h₁
  obtain ⟨err, hfail, -⟩ | ⟨r', v₂', hres', hr⟩ := reserve_cases v₁ h₁.bounded c.now records.length lifetime c.memLow
  · rw [hfail] at hres
    cases hres
  rw [hres] at hres'
  cases hres'
  have h₃ := (h₁.reserves hr hearly).getPageByName (cfg.pageName r.idx) (c.opens (cfg.pageName r.idx))
  obtain ⟨err, v₃, hget, hadd⟩ | ⟨o, v₃, hget, hadd⟩ := hopen
  · rw [hget] at h₃
    rw [hadd]
    exact h₃
  · rw [hget] at h₃
    rw [hadd]
    exact ⟨⟨h₃.sound.allocated, h₃.sound.injective⟩, h₃.bounded, h₃.formed, h₃.named, h₃.early⟩

theorem Kempt.scanLoop (h : Kempt cfg v) (opens : Bytes → OpenResult) (todo : List ℕ) :
    Kempt cfg (v.scanLoop cfg opens todo).2 := by
  induction todo generalizing v with
  | nil => exact h
  | cons idx rest ih =>
    have hmapped := h.getPageByName (v.shared.index idx).pageName (opens (v.shared.index idx).pageName)
    unfold View.scanLoop
    dsimp only
    rcases hget : v.getPageByName (v.shared.index idx).pageName (opens (v.shared.index idx).pageName) with ⟨err | o, v₁⟩
    · rw [hget] at hmapped
      exact hmapped
    rw [hget] at hmapped
    have hrest := ih hmapped
    rcases hscan : v₁.scanLoop cfg opens rest with ⟨err | elements, v₂⟩
    · rw [hscan] at hrest
      dsimp only
      rw [hscan]
      exact hrest
    · rw [hscan] at hrest
      dsimp only
      rw [hscan]
      exact hrest

theorem Kempt.processRecords (h : Kempt cfg v) (c : Calls) : Kempt cfg (v.processRecords cfg c).2 := by
  obtain ⟨h₁, -⟩ := h.release c
  unfold View.processRecords
  rcases hrel : v.releaseExpiredMemoryPages cfg c with ⟨_ | err, v₁⟩
  · rw [hrel] at h₁
    dsimp only
    split_ifs
    · exact h₁.scanLoop c.opens _
    · exact h₁
  · rw [hrel] at h₁
    exact h₁

theorem Kempt.cleanup (h : Kempt cfg v) (c : Calls) : Kempt cfg (v.cleanup cfg c).2 := by
  obtain ⟨n, hclean, -⟩ := cleanupLoop_index cfg v c.opens
  have horder := h.clears hclean.clears ((cleanupLoop_evolves cfg c.opens cfg.tableMaxPages 0 v).keeps.sound h.sound)
  unfold View.cleanup
  split_ifs
  · rcases hloop : cleanupLoop cfg c.opens cfg.tableMaxPages 0 v with ⟨_ | err, v₁⟩
    · rw [hloop] at horder
      exact horder.of_shared rfl
    · rw [hloop] at horder
      exact horder
  · exact h

/-! ## Scans -/

omit [Inhabited α] in
theorem Alone.kempt (h : Alone cfg v) : Kempt cfg v :=
  ⟨h.sound, h.bounded, h.names, fun j hpos _ hused => h.named j hpos hused, fun j _ => h.early j⟩

/-- What is read from the page of a used entry. -/
theorem Alone.read_slots (h : Alone cfg v) {idx o : ℕ} (hname : (v.shared.index idx).pageName = cfg.pageName idx)
    (hn : v.shared.names (cfg.pageName idx) = some o) :
    v.readElements o 0 ((v.shared.index idx).used cfg) = v.slots cfg idx := by
  have hsized := (h.live _ o hn).1
  unfold View.readElements View.slots
  rw [hname]
  refine List.map_congr_left fun i _ => ?_
  unfold SharedMemory.element
  rw [hn]
  dsimp only
  rw [if_pos hsized, Nat.zero_add]

/-- The loop of `processRecords` over used entries reads their slots, if it finds them all with names. -/
theorem Alone.scanLoop_slots (h : Alone cfg v) (hcur : Current v) (hshort : ShortNames cfg) {opens : Bytes → OpenResult}
    (hopens : ∀ name, opens name = .mapped) (todo : List ℕ)
    (hused : ∀ idx ∈ todo, 0 < (v.shared.index idx).expireAt) (elements : List α)
    (hscan : (v.scanLoop cfg opens todo).1 = .ok elements) :
    elements = todo.flatMap (v.slots cfg) ∧ ∀ idx ∈ todo, (v.shared.index idx).pageName = cfg.pageName idx := by
  induction todo generalizing v elements with
  | nil =>
    cases hscan
    exact ⟨rfl, nofun⟩
  | cons idx rest ih =>
    have husedIdx := hused idx List.mem_cons_self
    unfold View.scanLoop at hscan
    dsimp only at hscan
    rcases h.names idx with hnil | hname
    · -- a page without a name is not mapped
      rw [hnil, h.getPageByName_nil hcur] at hscan
      cases hscan
    obtain ⟨o, own, hn, hget, h₁, hcur₁⟩ := h.getPageByName_used hcur hshort husedIdx
    rw [hname, hopens, hget] at hscan
    dsimp only at hscan
    have hrest := ih h₁ hcur₁ fun j hj => hused j (List.mem_cons_of_mem idx hj)
    rcases hloop : ({ v with own := own } : View α).scanLoop cfg opens rest with ⟨err | more, v₂⟩
    · rw [hloop] at hscan
      cases hscan
    · rw [hloop] at hscan hrest
      cases hscan
      obtain ⟨rfl, hnamed⟩ := hrest more rfl
      refine ⟨congrArg (· ++ _) (h₁.read_slots hname hn), fun j hj => ?_⟩
      rcases List.mem_cons.1 hj with rfl | hj
      · exact hname
      · exact hnamed j hj

/-- A scan that does not fail delivers the slots of the entries it selects, which all have their names. -/
theorem Alone.processRecords_slots (h : Alone cfg v) (hcur : Current v) (hshort : ShortNames cfg) {c : Calls}
    (hopens : ∀ name, c.opens name = .mapped) {elements : List α} (hscan : (v.processRecords cfg c).1 = .ok elements) :
    elements = ((v.releaseExpiredMemoryPages cfg c).2.recordsToScan cfg c.now).flatMap
        ((v.releaseExpiredMemoryPages cfg c).2.slots cfg) ∧
      ∀ idx ∈ (v.releaseExpiredMemoryPages cfg c).2.recordsToScan cfg c.now,
        ((v.releaseExpiredMemoryPages cfg c).2.shared.index idx).pageName = cfg.pageName idx := by
  obtain ⟨h₁, hcur₁, -, -⟩ := h.release hcur hshort c hopens
  unfold View.processRecords at hscan
  rcases hrel : v.releaseExpiredMemoryPages cfg c with ⟨_ | err, v₁⟩
  swap
  · rw [hrel] at hscan
    cases hscan
  rw [hrel] at h₁ hcur₁ hscan
  dsimp only at h₁ hcur₁ hscan ⊢
  by_cases hlock : c.lock = true
  · rw [if_pos hlock] at hscan
    exact h₁.scanLoop_slots hcur₁ hshort hopens _
      (fun idx hidx => Nat.zero_lt_of_lt (mem_recordsToScan _ _ hidx).2.2.1) elements hscan
  · rw [if_neg hlock] at hscan
    cases hscan

/-- **A scan that does not fail delivers the stock.** -/
theorem Alone.processRecords_stock (h : Alone cfg v) (hcur : Current v) (hshort : ShortNames cfg) {c : Calls}
    (hopens : ∀ name, c.opens name = .mapped) (hclock : c.releaseNow ≤ c.now) {elements : List α}
    (hscan : (v.processRecords cfg c).1 = .ok elements) : elements = v.stock cfg c.now := by
  obtain ⟨hread, -⟩ := h.processRecords_slots hcur hshort hopens hscan
  rw [hread, ← stock_eq_scan, View.stock, View.stock, (h.kempt.release c).2 c.now hclock]

end Stock

end DealsServer
