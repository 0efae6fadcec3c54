import DealsServer.Lib.Retention
import DealsServer.Lib.Run
import DealsServer.Proof.LeftSlots

/-!
# What a table is for

A table of one process is a bag of records that forgets those that are over. The log has every record with the time at
which its lifetime ends; the bins are the pages, and a page is given up when all that it has is over, or when low
memory makes `global_expire_at` say so.

* `Stores.release`, `Stores.addRecord`, `Stores.processRecords`, `Stores.cleanup`: what the operations keep.
* `table_retains`: a scan finds every record that is not over, and nothing that was not added.
-/

namespace DealsServer

open Retention StateMachine

variable {α : Type} {cfg : TableConfig} {v v' : View α}

/-! ## Bins -/

/-- The bin of an entry has the records of its page, each with a time that is not after the entry expires. -/
structure Shelved (cfg : TableConfig) (v : View α) (bins : ℕ → List (α × ℕ)) : Prop where
  unused : ∀ j, (v.shared.index j).expireAt = 0 → bins j = []
  page : ∀ j o, 0 < (v.shared.index j).expireAt → v.shared.names (cfg.pageName j) = some o →
    (bins j).map Prod.fst = (List.range ((v.shared.index j).used cfg)).map (v.shared.objects o).elements
  ended : ∀ j, ∀ x ∈ bins j, x.2 ≤ (v.shared.index j).expireAt

/-- The table retains the log, up to the clock or the seconds that low memory has taken. -/
structure Stores (cfg : TableConfig) (clock : ℕ) (log : Multiset (α × ℕ)) (v : View α) : Prop where
  alone : Alone cfg v
  current : Current v
  first : UsedFirst cfg v.shared.index
  retains : ∃ bins, Shelved cfg v bins ∧
    Retains Prod.snd (max clock v.globalExpireAt) (content cfg.tableMaxPages bins) log

variable {bins : ℕ → List (α × ℕ)} {clock clock' : ℕ} {log : Multiset (α × ℕ)}

/-- Where entries and pages are as they were, so are the bins. -/
theorem Shelved.of_shared (h : Shelved cfg v bins) (hindex : v'.shared.index = v.shared.index)
    (hnames : v'.shared.names = v.shared.names) (hobjects : v'.shared.objects = v.shared.objects) :
    Shelved cfg v' bins := by
  obtain ⟨hunused, hpage, hover⟩ := h
  refine ⟨?_, ?_, ?_⟩
  · rwa [hindex]
  · rwa [hindex, hnames, hobjects]
  · rwa [hindex]

/-- The bins of the entries that stay used. -/
theorem Shelved.leaves (h : Shelved cfg v bins) (halone : Alone cfg v) (hleaves : Leaves cfg v v') :
    Shelved cfg v' (keep (fun j => 0 < (v'.shared.index j).expireAt) bins) := by
  refine ⟨fun j hzero => if_neg (by omega), fun j o hused hn => ?_, fun j x hx => ?_⟩
  · have hsame := hleaves.index j hused
    have hold : 0 < (v.shared.index j).expireAt := by rwa [← hsame]
    obtain ⟨o', hn'⟩ := halone.paged j hold
    obtain ⟨hstays, helements⟩ := hleaves.page j o' hused hn'
    rw [hn] at hstays
    cases hstays
    rw [keep, if_pos hused, hsame, helements]
    exact h.page j o hold hn'
  · unfold keep at hx
    split_ifs at hx with hused
    · rw [hleaves.index j hused]
      exact h.ended j x hx
    · cases hx

theorem Stores.mono (h : Stores cfg clock log v) (hclock : clock ≤ clock') : Stores cfg clock' log v := by
  obtain ⟨bins, hshelved, hretains⟩ := h.retains
  exact ⟨h.alone, h.current, h.first, bins, hshelved, hretains.mono (max_le_max hclock le_rfl)⟩

/-- Another `global_expire_at` of the context, and other open pages. -/
theorem Stores.of_shared (h : Stores cfg clock log v) (hshared : v'.shared = v.shared)
    (hglobal : v.globalExpireAt ≤ v'.globalExpireAt)
    (hopened : ∀ page ∈ v'.own.openedPagesList, v.shared.names page.1 = some page.2) : Stores cfg clock log v' := by
  obtain ⟨bins, hshelved, hretains⟩ := h.retains
  refine ⟨h.alone.of_shared (by rw [hshared]) (by rw [hshared]) (by rw [hshared]) (by rw [hshared])
    fun page hpage => .inr (hopened page hpage), fun page hpage => ?_, ?_, bins,
    hshelved.of_shared (by rw [hshared]) (by rw [hshared]) (by rw [hshared]), hretains.mono (max_le_max le_rfl hglobal)⟩
  · rw [hshared]
    exact hopened page hpage
  · rw [hshared]
    exact h.first

/-- What is in a slot that was handed out was added. -/
theorem Stores.allOf (h : Stores cfg clock log v) : AllOf cfg (fun e => ∃ x ∈ log, x.1 = e) v := by
  obtain ⟨bins, hshelved, hretains⟩ := h.retains
  intro j o hused hn i hi
  have hslots := used_add (h.alone.bounded j (h.alone.range j hused) hused)
  have hin : (v.shared.objects o).elements i ∈ (bins j).map Prod.fst := by
    rw [hshelved.page j o hused hn]
    exact List.mem_map_of_mem (List.mem_range.2 (by omega))
  obtain ⟨x, hx, heq⟩ := List.mem_map.1 hin
  exact ⟨x, Multiset.mem_of_le hretains.le (mem_content.2 ⟨j, h.alone.range j hused, hx⟩), heq⟩

/-! ## New records -/

/-- Records that are copied behind the first slots of a page come behind what these had. -/
theorem map_range_copy {e e' : ℕ → α} {start : ℕ} {records : List α} (hold : ∀ i < start, e' i = e i)
    (hnew : ∀ i, ∀ hi : i < records.length, e' (start + i) = records[i]) :
    (List.range (start + records.length)).map e' = (List.range start).map e ++ records := by
  rw [List.range_add, List.map_append, List.map_map]
  congr 1
  · exact List.map_congr_left fun i hi => hold i (List.mem_range.1 hi)
  · apply List.ext_getElem
    · simp
    · intro i hi hi'
      simpa using hnew i hi'

/-- The records, with the end of their lifetime. -/
def lasting (ends : ℕ) (records : List α) : List (α × ℕ) := records.map fun record => (record, ends)

@[simp] theorem lasting_fst (ends : ℕ) (records : List α) : (lasting ends records).map Prod.fst = records := by
  simp [lasting, List.map_map, Function.comp_def]

theorem lasting_snd {ends : ℕ} {records : List α} {x : α × ℕ} (hx : x ∈ lasting ends records) : x.2 = ends := by
  obtain ⟨record, -, rfl⟩ := List.mem_map.1 hx
  rfl

/-- The page of the entry has what the entry goes on with, and the records. -/
theorem Shelved.placed_page {now lifetime ends : ℕ} {memLow : Bool} {records : List α} {r : Reservation}
    (h : Shelved cfg v bins) (hplaced : Placed cfg v v' now memLow records lifetime r) {old : List (α × ℕ)}
    (hold : old = bins r.idx ∧ r.start + (v.shared.index r.idx).pageElementsAvailable = cfg.maxElementsInPage ∧
        (∃ o, v.shared.names (cfg.pageName r.idx) = some o) ∧ 0 < (v.shared.index r.idx).expireAt ∨
      old = [] ∧ r.start = 0) {o : ℕ} (hn' : v'.shared.names (cfg.pageName r.idx) = some o) :
    (old ++ lasting ends records).map Prod.fst =
      (List.range ((v'.shared.index r.idx).used cfg)).map (v'.shared.objects o).elements := by
  obtain ⟨w, hr, hindex, -⟩ := hplaced.reserves
  obtain ⟨o, hn, hnew, hkept⟩ := hplaced.page
  have hroom := hr.room
  rw [← hindex] at hroom
  have hused : (v'.shared.index r.idx).used cfg = r.start + records.length := by
    have hfree : (v'.shared.index r.idx).pageElementsAvailable ≤ cfg.maxElementsInPage := by omega
    have hsum := used_add hfree
    omega
  rw [hn] at hn'
  cases hn'
  rw [List.map_append, lasting_fst, hused]
  rcases hold with ⟨rfl, hstart, ⟨o', hname⟩, hpos⟩ | ⟨rfl, hstart⟩
  · obtain ⟨rfl, hbefore⟩ := hkept o' hname
    have hbin := h.page _ o' hpos hname
    have hstart' : (v.shared.index r.idx).used cfg = r.start := by
      have hfree : (v.shared.index r.idx).pageElementsAvailable ≤ cfg.maxElementsInPage := by omega
      have hsum := used_add hfree
      omega
    rw [hbin, hstart', map_range_copy hbefore hnew]
  · rw [map_range_copy (e := (v'.shared.objects o).elements) (fun _ _ => rfl) hnew, hstart]
    rfl

/-- The bins after records were placed: the entry goes on with its bin, or begins a new one. -/
theorem Shelved.placed {now lifetime : ℕ} {memLow : Bool} {records : List α} {r : Reservation} (h : Shelved cfg v bins)
    (halone : Alone cfg v) (hplaced : Placed cfg v v' now memLow records lifetime r) (hlive : 0 < now + cfg.lifetime lifetime)
    (hfits : now + cfg.lifetime lifetime < 2 ^ 32) {old : List (α × ℕ)}
    (hold : old = bins r.idx ∧ r.start + (v.shared.index r.idx).pageElementsAvailable = cfg.maxElementsInPage ∧
        (∃ o, v.shared.names (cfg.pageName r.idx) = some o) ∧ 0 < (v.shared.index r.idx).expireAt ∧
        (v.shared.index r.idx).expireAt ≤ (v'.shared.index r.idx).expireAt ∨
      old = [] ∧ r.start = 0)
    (hexpire : now + cfg.lifetime lifetime ≤ (v'.shared.index r.idx).expireAt) :
    Shelved cfg v' (Function.update bins r.idx (old ++ lasting (now + cfg.lifetime lifetime) records)) := by
  obtain ⟨w, hr, hindex, -⟩ := hplaced.reserves
  refine ⟨fun j hzero => ?_, fun j o' hpos hn' => ?_, fun j x hx => ?_⟩
  · have hne : j ≠ r.idx := by
      rintro rfl
      omega
    rw [hindex, hr.others j hne] at hzero
    rw [Function.update_of_ne hne]
    exact h.unused j hzero
  · by_cases heq : j = r.idx
    · subst heq
      rw [Function.update_self]
      exact h.placed_page hplaced (hold.imp_left fun ⟨hbin, hstart, hname, hpos', _⟩ => ⟨hbin, hstart, hname, hpos'⟩) hn'
    · rw [hindex, hr.others j heq] at hpos
      obtain ⟨o₀, hn₀⟩ := halone.paged j hpos
      obtain ⟨hstays, helements⟩ := hplaced.others j o₀ heq hn₀
      rw [hn'] at hstays
      cases hstays
      rw [Function.update_of_ne heq, hindex, hr.others j heq, helements]
      exact h.page j o' hpos hn₀
  · by_cases heq : j = r.idx
    · subst heq
      rw [Function.update_self] at hx
      rcases List.mem_append.1 hx with hx | hx
      · rcases hold with ⟨rfl, -, -, -, hle⟩ | ⟨rfl, -⟩
        · exact (h.ended _ x hx).trans hle
        · cases hx
      · rw [lasting_snd hx]
        exact hexpire
    · rw [Function.update_of_ne heq] at hx
      rw [hindex, hr.others j heq]
      exact h.ended j x hx

/-- **Records that are placed come into the table**, and nothing goes but what is over. -/
theorem Stores.placed {now lifetime : ℕ} {memLow : Bool} {records : List α} {r : Reservation}
    (h : Stores cfg clock log v) (halone : Alone cfg v') (hcur : Current v')
    (hplaced : Placed cfg v v' now memLow records lifetime r) (hlive : 0 < now + cfg.lifetime lifetime)
    (hfits : now + cfg.lifetime lifetime < 2 ^ 32) (hclock : now ≤ clock) :
    Stores cfg clock (log + (lasting (now + cfg.lifetime lifetime) records : Multiset (α × ℕ))) v' := by
  obtain ⟨bins, hshelved, hretains⟩ := h.retains
  obtain ⟨w, hr, hindex, hglobal⟩ := hplaced.reserves
  have hexpire : cfg.expireTime now lifetime = now + cfg.lifetime lifetime := Nat.mod_eq_of_lt hfits
  refine ⟨halone, hcur, hindex ▸ hr.usedFirst h.first (hexpire ▸ hlive), ?_⟩
  rcases hr.outcome with hcont | hrest
  · refine ⟨_, hshelved.placed h.alone hplaced hlive hfits (.inl ⟨rfl, hcont.start_eq, h.alone.paged _ hcont.used,
      hcont.used, ?_⟩) ?_, ?_⟩
    · rw [hindex, hcont.expireAt_eq]
      exact le_max_left _ _
    · rw [hindex, hcont.expireAt_eq, hexpire]
      exact le_max_right _ _
    · rw [hglobal, hcont.global_eq]
      exact hretains.fill hr.idx_lt _
  · refine ⟨_, hshelved.placed h.alone hplaced hlive hfits (.inr ⟨rfl, hrest.start_eq⟩) ?_, ?_⟩
    · rw [hindex, hrest.expireAt_eq, hexpire]
    -- what the page had is over: it expired, there was none, or `global_expire_at` was raised to its end
    have hg : v.globalExpireAt ≤ v'.globalExpireAt ∧ ∀ x ∈ bins r.idx, x.2 ≤ max clock v'.globalExpireAt := by
      rw [hglobal]
      obtain ⟨-, -, hexpired, -, hsame⟩ | ⟨-, -, hzero, -, -, hsame⟩ | ⟨-, -, -, -, hraised⟩ := hrest.kind
      · rw [hsame]
        exact ⟨le_rfl, fun x hx => (hshelved.ended _ x hx).trans (by omega)⟩
      · rw [hsame, hshelved.unused _ hzero]
        exact ⟨le_rfl, nofun⟩
      · rw [hraised]
        exact ⟨le_max_left _ _, fun x hx => (hshelved.ended _ x hx).trans (by omega)⟩
    exact (hretains.mono (max_le_max le_rfl hg.1)).restart hr.idx_lt hg.2 _

section Operations

variable [Inhabited α]

theorem stores_init (cfg : TableConfig) (clock : ℕ) : Stores cfg clock 0 (⟨.init, 0, .init⟩ : View α) where
  alone := alone_init
  current := nofun
  first _ _ _ _ h := absurd h (lt_irrefl 0)
  retains := by
    refine ⟨fun _ => [], ⟨fun _ _ => rfl, fun _ _ h => absurd h (lt_irrefl 0), nofun⟩, ?_⟩
    have hnone : content cfg.tableMaxPages (fun _ => ([] : List (α × ℕ))) = 0 := Finset.sum_const_zero
    rw [hnone]
    exact Retains.refl _ _ _

/-! ## The maintenance -/

omit [Inhabited α] in
theorem UsedFirst.of_index (h : UsedFirst cfg v.shared.index) (hindex : v'.shared.index = v.shared.index) :
    UsedFirst cfg v'.shared.index := by rwa [hindex]

theorem UsedFirst.release (h : UsedFirst cfg v.shared.index) (c : Calls) :
    UsedFirst cfg (v.releaseExpiredMemoryPages cfg c).2.shared.index := by
  obtain ⟨b, e, hrel, -⟩ := releaseLocked_index cfg v c.releaseNow c.opens
  have hfirst := hrel.usedFirst h
  unfold View.releaseExpiredMemoryPages
  split_ifs
  · rcases hlocked : v.releaseLocked cfg c.releaseNow c.opens with ⟨_ | err, w⟩
    · rw [hlocked] at hfirst
      exact hfirst
    · rw [hlocked] at hfirst
      exact hfirst
  · exact h
  · exact h

/-- **The maintenance gives up only what is over.** -/
theorem Stores.release (h : Stores cfg clock log v) (hshort : ShortNames cfg) {c : Calls}
    (hopens : ∀ name, c.opens name = .mapped) (hclock : clock ≤ clock') (hnow : c.releaseNow ≤ clock') :
    Stores cfg clock' log (v.releaseExpiredMemoryPages cfg c).2 := by
  obtain ⟨halone, hcur, hleaves, hneeded⟩ := h.alone.release h.current hshort c hopens
  obtain ⟨bins, hshelved, hretains⟩ := h.retains
  refine ⟨halone, hcur, h.first.release c, _, hshelved.leaves h.alone hleaves, ?_⟩
  rw [hleaves.global]
  refine (retains_keep _ fun j _ hgone x hx => ?_).trans (hretains.mono (max_le_max hclock le_rfl))
  -- an entry that was given up was unused before, or not needed any more
  have hend := hshelved.ended j x hx
  by_contra hlate
  refine hgone ?_
  have hused : 0 < (v.shared.index j).expireAt := by omega
  rw [hneeded j ⟨hused, ?_⟩]
  · exact hused
  · have hearly := h.alone.early j
    rw [Nat.mod_eq_of_lt hearly]
    omega

/-! ## The operations -/

/-- **An `addRecord` puts its records into the table**, unless it fails. -/
theorem Stores.addRecord (h : Stores cfg clock log v) (hshort : ShortNames cfg) {c : Calls}
    (hopens : ∀ name, c.opens name = .mapped) (records : List α) {lifetime : ℕ}
    (hlive : 0 < c.now + cfg.lifetime lifetime)
    (hearly : c.now + cfg.lifetime lifetime + removeExpiredPagesDelaySec < 2 ^ 32) (hclock : clock ≤ c.now)
    (hrelease : c.releaseNow ≤ c.now) :
    (∃ err, (v.addRecord cfg c records lifetime).1 = .error err ∧
        Stores cfg c.now log (v.addRecord cfg c records lifetime).2) ∨
      ∃ place, (v.addRecord cfg c records lifetime).1 = .ok place ∧
        Stores cfg c.now (log + (lasting (c.now + cfg.lifetime lifetime) records : Multiset (α × ℕ)))
          (v.addRecord cfg c records lifetime).2 := by
  have hstores := h.release hshort hopens hclock hrelease
  obtain ⟨halone, hcur, ⟨err, hadd⟩ | ⟨r, v', hadd, hplaced⟩⟩ :=
    h.alone.addRecord h.current hshort hopens records hearly
  · rw [hadd]
    exact .inl ⟨err, rfl, hstores⟩
  · rw [hadd] at halone hcur ⊢
    exact .inr ⟨_, rfl, hstores.placed halone hcur hplaced hlive (by omega) le_rfl⟩

/-- What the loop of `processRecords` opens. -/
theorem Stores.scanLoop (h : Stores cfg clock log v) (hshort : ShortNames cfg) {opens : Bytes → OpenResult}
    (hopens : ∀ name, opens name = .mapped) (todo : List ℕ)
    (hused : ∀ idx ∈ todo, 0 < (v.shared.index idx).expireAt) : Stores cfg clock log (v.scanLoop cfg opens todo).2 := by
  obtain ⟨res, own, hscan, hopened, -⟩ := h.alone.scanLoop h.current hshort hopens (P := fun _ => True)
    (fun _ _ _ _ _ _ => trivial) todo hused
  rw [hscan]
  exact h.of_shared rfl le_rfl hopened

omit [Inhabited α] in
/-- A scan selects every entry that has something that is not over. -/
theorem Stores.selects (h : Stores cfg clock log v) (hshelved : Shelved cfg v bins) (now : ℕ) :
    Retains Prod.snd (max now v.globalExpireAt)
      (content cfg.tableMaxPages (keep (Live cfg v now) bins)) (content cfg.tableMaxPages bins) := by
  refine retains_keep _ fun j hj hdead x hx => ?_
  have hend := hshelved.ended j x hx
  by_contra hlate
  have hused : 0 < (v.shared.index j).expireAt := by omega
  refine hdead ⟨hj, fun i hi => ?_, by omega, by omega⟩
  rcases Nat.eq_or_lt_of_le hi with rfl | hlt
  · exact hused
  · exact h.first i j hlt hj hused

/-- **A scan delivers what is not over**, and nothing that was not added. -/
theorem Stores.processRecords (h : Stores cfg clock log v) (hshort : ShortNames cfg) {c : Calls}
    (hopens : ∀ name, c.opens name = .mapped) (hclock : clock ≤ c.now) (hrelease : c.releaseNow ≤ c.now) :
    Stores cfg c.now log (v.processRecords cfg c).2 ∧ (v.processRecords cfg c).2.globalExpireAt = v.globalExpireAt ∧
      ∀ elements, (v.processRecords cfg c).1 = .ok elements →
        ∃ kept, Retains Prod.snd (max c.now v.globalExpireAt) kept log ∧ (elements : Multiset α) = kept.map Prod.fst := by
  have hstores := h.release hshort hopens hclock hrelease
  have hglobal := release_global cfg v c
  have hread (elements : List α) (hok : (v.processRecords cfg c).1 = .ok elements) :=
    h.alone.processRecords_slots h.current hshort hopens hok
  refine ⟨?_, ?_, fun elements hok => ?_⟩
  · unfold View.processRecords
    rcases hrel : v.releaseExpiredMemoryPages cfg c with ⟨_ | err, v₁⟩
    · rw [hrel] at hstores
      dsimp only
      split_ifs
      · exact hstores.scanLoop hshort hopens _ fun idx hidx => Nat.zero_lt_of_lt (mem_recordsToScan _ _ hidx).2.2.1
      · exact hstores
    · rw [hrel] at hstores
      exact hstores
  · exact (h.alone.processRecords h.current hshort hopens (P := fun _ => True)
      (fun _ _ _ _ _ _ => trivial)).2.2.2.1
  · obtain ⟨hslots, hnamed⟩ := hread elements hok
    obtain ⟨bins, hshelved, hretains⟩ := hstores.retains
    have hselects := hstores.selects hshelved c.now
    rw [hglobal] at hretains hselects
    refine ⟨_, hselects.trans hretains, ?_⟩
    set v₁ := (v.releaseExpiredMemoryPages cfg c).2
    -- what is read from a selected entry is its bin
    have hscan : v₁.recordsToScan cfg c.now = (List.range cfg.tableMaxPages).filter (Live cfg v₁ c.now) := by
      rw [List.range_eq_range']
      exact recordsToScan_eq_filter c.now cfg.tableMaxPages 0 (Nat.zero_add _) fun j hj => absurd hj (Nat.not_lt_zero j)
    have hbins (idx : ℕ) (hidx : idx ∈ v₁.recordsToScan cfg c.now) :
        v₁.slots cfg idx = (bins idx).map Prod.fst := by
      have hused := Nat.zero_lt_of_lt (mem_recordsToScan _ _ hidx).2.2.1
      obtain ⟨o, hn⟩ := hstores.alone.paged idx hused
      rw [hshelved.page idx o hused hn, ← hstores.alone.read_slots (hnamed idx hidx) hn]
      simp [View.readElements]
    rw [content_map, ← coe_flatMap, hslots, List.flatMap_congr hbins, hscan, ← flatMap_keep]
    congr 2
    funext j
    unfold keep
    split_ifs
    · rfl
    · rfl

/-! ## Clearing -/

/-- The loop of `cleanup` goes through all used entries behind the first. -/
theorem Alone.cleanupLoop (h : Alone cfg v) (hshort : ShortNames cfg) {opens : Bytes → OpenResult}
    (hopens : ∀ name, opens name = .mapped) (n idx : ℕ) (hpos : 0 < idx) :
    ∃ w, cleanupLoop cfg opens n idx v = (none, w) ∧ Alone cfg w := by
  induction n generalizing idx v with
  | zero => exact ⟨v, rfl, h⟩
  | succ n ih =>
    unfold DealsServer.cleanupLoop
    by_cases hused : (v.shared.index idx).expireAt > 0
    swap
    · exact ⟨v, if_neg hused, h⟩
    rw [if_pos hused]
    obtain ⟨v₁, hunlink, hsheds⟩ | ⟨-, hnot⟩ := h.unlinkEntry hshort (h.named idx hpos hused) hused opens
    · rw [hunlink]
      exact ih hsheds.alone (idx + 1) (by omega)
    · exact absurd hopens hnot

/-- The whole loop, which stops at a first entry without a name. -/
theorem Alone.cleanupLoop_first (h : Alone cfg v) (hcur : Current v) (hshort : ShortNames cfg)
    {opens : Bytes → OpenResult} (hopens : ∀ name, opens name = .mapped) (n : ℕ) :
    (∃ err, DealsServer.cleanupLoop cfg opens n 0 v = (some err, v)) ∨
      ∃ w, DealsServer.cleanupLoop cfg opens n 0 v = (none, w) ∧ Alone cfg w := by
  cases n with
  | zero => exact .inr ⟨v, rfl, h⟩
  | succ n =>
    unfold DealsServer.cleanupLoop
    by_cases hused : (v.shared.index 0).expireAt > 0
    swap
    · exact .inr ⟨v, if_neg hused, h⟩
    rw [if_pos hused]
    rcases h.names 0 with hnil | hname
    · left
      refine ⟨.emptyPageName, ?_⟩
      unfold View.unlinkEntry
      rw [hnil]
      dsimp only
      rw [h.getPageByName_nil hcur]
    · obtain ⟨v₁, hunlink, hsheds⟩ | ⟨-, hnot⟩ := h.unlinkEntry hshort hname hused opens
      · rw [hunlink]
        exact .inr (hsheds.alone.cleanupLoop hshort hopens n 1 Nat.one_pos)
      · exact absurd hopens hnot

omit [Inhabited α] in
/-- Nothing is in the bins of a table without used entries. -/
theorem Stores.of_unused (halone : Alone cfg v) (hcur : Current v) (hunused : ∀ j, (v.shared.index j).expireAt = 0)
    (clock : ℕ) : Stores cfg clock 0 v where
  alone := halone
  current := hcur
  first i j _ _ hused := by
    rw [hunused j] at hused
    exact absurd hused (lt_irrefl 0)
  retains := by
    refine ⟨fun _ => [], ⟨fun _ _ => rfl, fun j _ hused => ?_, nofun⟩, ?_⟩
    · rw [hunused j] at hused
      exact absurd hused (lt_irrefl 0)
    · have hnone : content cfg.tableMaxPages (fun _ => ([] : List (α × ℕ))) = 0 := Finset.sum_const_zero
      rw [hnone]
      exact Retains.refl _ _ _

/-- A `cleanup` changes nothing, or it unlinks all used entries and closes all pages. -/
theorem Alone.cleanup (h : Alone cfg v) (hcur : Current v) (hshort : ShortNames cfg) {c : Calls}
    (hopens : ∀ name, c.opens name = .mapped) :
    (∃ err, v.cleanup cfg c = (some err, v)) ∨
      ∃ w n, v.cleanup cfg c = (none, w) ∧ Alone cfg w ∧ Current w ∧ CleansUp cfg v w false n := by
  unfold View.cleanup
  by_cases hlock : c.lock = true
  swap
  · rw [if_neg hlock]
    exact .inl ⟨_, rfl⟩
  rw [if_pos hlock]
  obtain ⟨n, hclean, -⟩ := cleanupLoop_index cfg v c.opens
  obtain ⟨err, hloop⟩ | ⟨w, hloop, halone⟩ := h.cleanupLoop_first hcur hshort hopens cfg.tableMaxPages
  · rw [hloop]
    exact .inl ⟨err, rfl⟩
  rw [hloop] at hclean ⊢
  obtain ⟨hbound, hused, hstop, hindex, hglobal⟩ := hclean
  exact .inr ⟨w.releaseOpenPages, n, rfl, halone.of_shared rfl rfl rfl rfl fun page hpage => absurd hpage List.not_mem_nil,
    fun page hpage => absurd hpage List.not_mem_nil, hbound, hused, hstop, hindex, hglobal⟩

/-- **A `cleanup` leaves an empty table**, unless it fails. -/
theorem Stores.cleanup (h : Stores cfg clock log v) (hshort : ShortNames cfg) {c : Calls}
    (hopens : ∀ name, c.opens name = .mapped) :
    (∃ err, v.cleanup cfg c = (some err, v)) ∨
      (v.cleanup cfg c).1 = none ∧ (v.cleanup cfg c).2.globalExpireAt = v.globalExpireAt ∧
        Stores cfg clock 0 (v.cleanup cfg c).2 := by
  obtain ⟨err, hfail⟩ | ⟨w, n, hdone, halone, hcur, hclean⟩ := h.alone.cleanup h.current hshort hopens
  · exact .inl ⟨err, hfail⟩
  rw [hdone]
  refine .inr ⟨rfl, hclean.clears.global_eq, .of_unused halone hcur (fun j => ?_) clock⟩
  rw [hclean.clears.index_eq]
  split_ifs with hj
  · rfl
  -- the loop stopped at the first unused entry, or at the end of the index
  by_contra hpos
  have hused := Nat.pos_of_ne_zero hpos
  have hrange := h.alone.range j hused
  have hstop := hclean.stop rfl (by omega)
  have hlt : n < j ∨ n = j := by omega
  rcases hlt with hlt | rfl
  · have := h.first n j hlt hrange hused
    omega
  · exact hpos hstop

/-! ## Runs -/

/-- An operation on a table. -/
inductive TableRequest (α : Type)
  | addRecord (records : List α) (lifetime : ℕ)
  | processRecords
  | cleanup

/-- A table, the clock its process has read last, and what was added since it was cleared. -/
structure Diary (α : Type) where
  view : View α
  clock : ℕ
  log : List (α × ℕ)

namespace Diary

/-- No page, and nothing added. -/
def init : Diary α := ⟨⟨.init, 0, .init⟩, 0, []⟩

/-- An operation, with its records in the log unless it fails. -/
def step (cfg : TableConfig) (d : Diary α) (a : Calls × TableRequest α) : Diary α :=
  match a.2 with
  | .addRecord records lifetime =>
    { view := (d.view.addRecord cfg a.1 records lifetime).2
      clock := a.1.now
      log := match (d.view.addRecord cfg a.1 records lifetime).1 with
        | .ok _ => d.log ++ lasting (a.1.now + cfg.lifetime lifetime) records
        | .error _ => d.log }
  | .processRecords => { d with view := (d.view.processRecords cfg a.1).2, clock := a.1.now }
  | .cleanup =>
    { d with
      view := (d.view.cleanup cfg a.1).2
      log := if (d.view.cleanup cfg a.1).1 = none then [] else d.log }

/-- The clock does not go back and is far from its overflow, and all pages can be opened. -/
structure Timed (cfg : TableConfig) (d : Diary α) (a : Calls × TableRequest α) : Prop where
  opens : ∀ name, a.1.opens name = .mapped
  ascending : d.clock ≤ a.1.now ∧ a.1.releaseNow ≤ a.1.now
  live : ∀ records lifetime, a.2 = .addRecord records lifetime → 0 < a.1.now + cfg.lifetime lifetime ∧
    a.1.now + cfg.lifetime lifetime + removeExpiredPagesDelaySec < 2 ^ 32

end Diary

/-- The table of the diary retains its log. -/
theorem diary_step (hshort : ShortNames cfg) {d : Diary α} (h : Stores cfg d.clock d.log d.view)
    {a : Calls × TableRequest α} (htimed : d.Timed cfg a) :
    Stores cfg (d.step cfg a).clock (d.step cfg a).log (d.step cfg a).view := by
  obtain ⟨hopens, ⟨hclock, hrelease⟩, hlive⟩ := htimed
  obtain ⟨c, request⟩ := a
  cases request with
  | addRecord records lifetime =>
    obtain ⟨hpos, hearly⟩ := hlive records lifetime rfl
    show Stores cfg c.now ((match (d.view.addRecord cfg c records lifetime).1 with
      | .ok _ => d.log ++ lasting (c.now + cfg.lifetime lifetime) records
      | .error _ => d.log : List (α × ℕ)) : Multiset (α × ℕ)) (d.view.addRecord cfg c records lifetime).2
    obtain ⟨err, herr, hstores⟩ | ⟨place, hok, hstores⟩ :=
      h.addRecord hshort hopens records hpos hearly hclock hrelease
    · rw [herr]
      exact hstores
    · rw [hok]
      exact hstores
  | processRecords => exact (h.processRecords hshort hopens hclock hrelease).1
  | cleanup =>
    show Stores cfg d.clock ((if (d.view.cleanup cfg c).1 = none then [] else d.log : List (α × ℕ)) : Multiset (α × ℕ))
      (d.view.cleanup cfg c).2
    obtain ⟨err, herr⟩ | ⟨hnone, -, hstores⟩ := h.cleanup hshort hopens
    · rw [herr]
      exact h
    · rw [if_pos hnone]
      exact hstores

/-- With memory left, `global_expire_at` is not raised. -/
theorem diary_global (hshort : ShortNames cfg) {d : Diary α} (h : Stores cfg d.clock d.log d.view)
    {a : Calls × TableRequest α} (htimed : d.Timed cfg a) (hmemory : a.1.memLow = false) :
    (d.step cfg a).view.globalExpireAt = d.view.globalExpireAt := by
  obtain ⟨hopens, ⟨hclock, hrelease⟩, -⟩ := htimed
  obtain ⟨c, request⟩ := a
  cases request with
  | addRecord records lifetime => exact (sparesOldest_of_memory hmemory).global lifetime
  | processRecords => exact (h.processRecords hshort hopens hclock hrelease).2.1
  | cleanup =>
    show (d.view.cleanup cfg c).2.globalExpireAt = d.view.globalExpireAt
    obtain ⟨err, herr⟩ | ⟨-, hglobal, -⟩ := h.cleanup hshort hopens
    · rw [herr]
    · exact hglobal

/-- **A table is a bag that forgets what is over**: after any run, a scan that does not fail delivers, in some order,
every record whose lifetime is not over at its clock and that low memory has not taken, and nothing but records that
were added since the table was cleared, each as often as it was. -/
theorem table_retains (hshort : ShortNames cfg) (as : List (Calls × TableRequest α))
    (htimed : Always (Diary.step cfg) (Diary.Timed cfg) .init as) {c : Calls}
    (hscan : (run (Diary.step cfg) .init as).Timed cfg (c, .processRecords)) {elements : List α}
    (hok : ((run (Diary.step cfg) .init as).view.processRecords cfg c).1 = .ok elements) :
    (∃ kept, Retains Prod.snd (max c.now (run (Diary.step cfg) .init as).view.globalExpireAt) kept
        ((run (Diary.step cfg) .init as).log : Multiset (α × ℕ)) ∧ (elements : Multiset α) = kept.map Prod.fst) ∧
      ((∀ a ∈ as, a.1.memLow = false) → (run (Diary.step cfg) .init as).view.globalExpireAt = 0) := by
  have hstep (d : Diary α) (a : Calls × TableRequest α) (h : Stores cfg d.clock (d.log : Multiset (α × ℕ)) d.view)
      (ha : d.Timed cfg a) := diary_step hshort h ha
  have hinit : Stores cfg (.init : Diary α).clock ((.init : Diary α).log : Multiset (α × ℕ)) (.init : Diary α).view :=
    stores_init cfg 0
  refine ⟨?_, fun hmemory => ?_⟩
  · have hstores := inv_run _ hstep hinit htimed
    exact (hstores.processRecords hshort hscan.opens hscan.ascending.1 hscan.ascending.2).2.2 elements hok
  · refine (inv_run (fun d : Diary α => Stores cfg d.clock (d.log : Multiset (α × ℕ)) d.view ∧ d.view.globalExpireAt = 0)
      (fun d a h ha => ⟨hstep d a h.1 ha.1, ?_⟩) ⟨hinit, rfl⟩ (htimed.and (always_of_forall hmemory _))).2
    rw [diary_global hshort h.1 ha.1 ha.2]
    exact h.2

end Operations

/-- A call that meets nothing unusual. -/
def plainCalls (now : ℕ) : Calls := ⟨now, true, now, true, false, fun _ => .mapped⟩

/-- Two records that live for ten seconds, and one that lives for twenty. -/
def threeRecords : List (Calls × TableRequest UInt8) :=
  [(plainCalls 100, .addRecord [1, 2] 10), (plainCalls 105, .addRecord [3] 20)]

theorem table_retains_three :
    (∃ kept, Retains Prod.snd (max 112 (run (Diary.step smallTable) .init threeRecords).view.globalExpireAt) kept
        ((run (Diary.step smallTable) .init threeRecords).log : Multiset (UInt8 × ℕ)) ∧
          (([1, 2, 3] : List UInt8) : Multiset UInt8) = kept.map Prod.fst) ∧
      ((∀ a ∈ threeRecords, a.1.memLow = false) →
        (run (Diary.step smallTable) .init threeRecords).view.globalExpireAt = 0) := by
  have hshort : ShortNames smallTable := by
    unfold ShortNames
    decide
  have hplain (now : ℕ) (name : Bytes) : (plainCalls now).opens name = .mapped := rfl
  refine table_retains hshort threeRecords ⟨⟨hplain 100, by decide, ?_⟩, ⟨hplain 105, by decide, ?_⟩, trivial⟩
    (c := plainCalls 112) ⟨hplain 112, by decide, nofun⟩ (by decide +kernel)
  · rintro records lifetime ⟨⟩
    decide
  · rintro records lifetime ⟨⟩
    decide

end DealsServer
