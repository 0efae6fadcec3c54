import DealsServer.Proof.OneProcess

/-!
# What the only process has added

* `Kept.addRecord`: records stay in their page until they expire, or until low memory raises `global_expire_at`.
* `Alone.processRecords`: a scan of the table delivers records that were added.
-/

namespace DealsServer

variable {α : Type} {cfg : TableConfig} {v v' : View α}

/-! ## Records in a page -/

/-- The place is in the page of an entry that is used until `expires` at least, and has the records. -/
def Kept (cfg : TableConfig) (v : View α) (place : Location) (records : List α) (expires : ℕ) : Prop :=
  ∃ idx o, place.pageName = cfg.pageName idx ∧ place.size.toNat = records.length ∧
    0 < (v.shared.index idx).expireAt ∧ expires ≤ (v.shared.index idx).expireAt ∧
    place.index.toNat + records.length + (v.shared.index idx).pageElementsAvailable ≤ cfg.maxElementsInPage ∧
    v.shared.names (cfg.pageName idx) = some o ∧
    ∀ i, ∀ hi : i < records.length, (v.shared.objects o).elements (place.index.toNat + i) = records[i]

variable {place : Location} {records : List α} {expires : ℕ}

/-- A place is kept as long as its entry stays. -/
theorem Kept.leaves (h : Kept cfg v place records expires) (hleaves : Leaves cfg v v')
    (hstays : ∀ j, expires ≤ (v.shared.index j).expireAt → 0 < (v.shared.index j).expireAt →
      v'.shared.index j = v.shared.index j) : Kept cfg v' place records expires := by
  obtain ⟨idx, o, hname, hsize, hused, hexpires, hroom, hn, helements⟩ := h
  have hsame := hstays idx hexpires hused
  obtain ⟨hn', hobject⟩ := hleaves.page idx o (by rw [hsame]; exact hused) hn
  refine ⟨idx, o, hname, hsize, by rwa [hsame], by rwa [hsame], by rwa [hsame], hn', fun i hi => ?_⟩
  rw [hobject]
  exact helements i hi

/-- New records are kept until their lifetime is over. -/
theorem Placed.kept {now lifetime : ℕ} {memLow : Bool} {r : Reservation}
    (h : Placed cfg v v' now memLow records lifetime r) (hpos : 0 < now + cfg.lifetime lifetime)
    (hfits : now + cfg.lifetime lifetime < 2 ^ 32) :
    Kept cfg v' ⟨cfg.pageName r.idx, r.start.toUInt32, records.length.toUInt32⟩ records
      (now + cfg.lifetime lifetime) := by
  obtain ⟨w, hr, hindex, -⟩ := h.reserves
  obtain ⟨o, hn, helements, -⟩ := h.page
  have hexpire : cfg.expireTime now lifetime = now + cfg.lifetime lifetime := Nat.mod_eq_of_lt hfits
  have hlast : now + cfg.lifetime lifetime ≤ (w.shared.index r.idx).expireAt := by
    rcases hr.outcome with hcont | hrest
    · rw [hcont.expireAt_eq, hexpire]
      exact le_max_right _ _
    · rw [hrest.expireAt_eq, hexpire]
  have hroom := hr.room
  have hmax := cfg.maxElements_lt
  have hstart : r.start.toUInt32.toNat = r.start := UInt32.toNat_ofNat_of_lt' (by show r.start < 2 ^ 32; omega)
  have hlength : records.length.toUInt32.toNat = records.length :=
    UInt32.toNat_ofNat_of_lt' (by show records.length < 2 ^ 32; omega)
  refine ⟨r.idx, o, rfl, hlength, ?_, ?_, ?_, hn, fun i hi => ?_⟩
  · rw [hindex]
    omega
  · rw [hindex]
    exact hlast
  · rw [hindex, hstart]
    omega
  · rw [hstart]
    exact helements i hi

/-- Placing records keeps a place, unless its entry is taken as an expired or as the oldest one. -/
theorem Kept.placed {now lifetime : ℕ} {memLow : Bool} {more : List α} {r : Reservation}
    (hk : Kept cfg v place records expires) (h : Placed cfg v v' now memLow more lifetime r) :
    Kept cfg v' place records expires ∨ expires < now ∨ memLow = true ∧ expires ≤ v'.globalExpireAt := by
  obtain ⟨idx, o, hname, hsize, hused, hexpires, hroom, hn, helements⟩ := hk
  obtain ⟨w, hr, hindex, hglobal⟩ := h.reserves
  by_cases heq : idx = r.idx
  swap
  · left
    obtain ⟨hn', hobject⟩ := h.others idx o heq hn
    have hsame : v'.shared.index idx = v.shared.index idx := by rw [hindex, hr.others idx heq]
    refine ⟨idx, o, hname, hsize, by rwa [hsame], by rwa [hsame], by rwa [hsame], hn', fun i hi => ?_⟩
    rw [hobject]
    exact helements i hi
  subst heq
  rcases hr.outcome with hcont | hrest
  · left
    -- the new records are behind the old ones
    obtain ⟨o', hn', -, hold⟩ := h.page
    obtain ⟨rfl, hbefore⟩ := hold o hn
    have hstart := hcont.start_eq
    have hroom' := hr.room
    refine ⟨r.idx, o, hname, hsize, ?_, ?_, ?_, hn', fun i hi => ?_⟩
    · rw [hindex, hcont.expireAt_eq]
      exact lt_max_of_lt_left hused
    · rw [hindex, hcont.expireAt_eq]
      exact hexpires.trans (le_max_left _ _)
    · rw [hindex]
      omega
    · rw [hbefore _ (by omega)]
      exact helements i hi
  · right
    obtain ⟨-, -, hexpired, -⟩ | ⟨-, -, hzero, -⟩ | ⟨-, hlow, -, -, hraised⟩ := hrest.kind
    · exact .inl (hexpires.trans_lt hexpired)
    · omega
    · refine .inr ⟨hlow, ?_⟩
      rw [hglobal, hraised]
      exact hexpires.trans (le_max_right _ _)

/-! ## All records -/

/-- All slots that were handed out on used entries have elements with the property. -/
def AllOf (cfg : TableConfig) (P : α → Prop) (v : View α) : Prop :=
  ∀ j o, 0 < (v.shared.index j).expireAt → v.shared.names (cfg.pageName j) = some o →
    ∀ i, i + (v.shared.index j).pageElementsAvailable < cfg.maxElementsInPage → P ((v.shared.objects o).elements i)

variable {P : α → Prop}

theorem AllOf.mono {Q : α → Prop} (h : AllOf cfg P v) (hPQ : ∀ e, P e → Q e) : AllOf cfg Q v :=
  fun j o hused hn i hi => hPQ _ (h j o hused hn i hi)

theorem AllOf.leaves (h : AllOf cfg P v) (halone : Alone cfg v) (hleaves : Leaves cfg v v') : AllOf cfg P v' := by
  intro j o hused hn i hi
  rw [hleaves.index j hused] at hi
  have hold : 0 < (v.shared.index j).expireAt := by rwa [hleaves.index j hused] at hused
  obtain ⟨o', hn'⟩ := halone.paged j hold
  obtain ⟨hstays, helements⟩ := hleaves.page j o' hused hn'
  rw [hn] at hstays
  cases hstays
  rw [helements]
  exact h j o hold hn' i hi

theorem AllOf.placed {now lifetime : ℕ} {memLow : Bool} {r : Reservation} (h : AllOf cfg P v) (halone : Alone cfg v)
    (hplaced : Placed cfg v v' now memLow records lifetime r) (hrecords : ∀ e ∈ records, P e) : AllOf cfg P v' := by
  obtain ⟨w, hr, hindex, -⟩ := hplaced.reserves
  intro j o hused hn i hi
  rw [hindex] at hused hi
  -- only the reserved page is written; the others keep their elements
  by_cases heq : j = r.idx
  swap
  · rw [hr.others j heq] at hused hi
    obtain ⟨o', hn'⟩ := halone.paged j hused
    obtain ⟨hstays, helements⟩ := hplaced.others j o' heq hn'
    rw [hn] at hstays
    cases hstays
    rw [helements]
    exact h j o hused hn' i hi
  subst heq
  obtain ⟨o', hn', hnew, hold⟩ := hplaced.page
  rw [hn] at hn'
  cases hn'
  have hroom := hr.room
  by_cases hi' : i < r.start
  · -- a slot before the new ones was handed out before
    rcases hr.outcome with hcont | hrest
    · obtain ⟨o', hn'⟩ := halone.paged _ hcont.used
      obtain ⟨rfl, hbefore⟩ := hold o' hn'
      have hstart := hcont.start_eq
      rw [hbefore i hi']
      exact h _ o' hcont.used hn' i (by omega)
    · have hstart := hrest.start_eq
      omega
  · -- the new slots hold the new records
    have helement := hnew (i - r.start) (by omega)
    rw [Nat.add_sub_cancel' (by omega)] at helement
    rw [helement]
    exact hrecords _ (List.getElem_mem _)

section Operations

variable [Inhabited α]

/-- The maintenance keeps the places that are not expired. -/
theorem Kept.release (h : Alone cfg v) (hcur : Current v) (hshort : ShortNames cfg) {c : Calls}
    (hopens : ∀ name, c.opens name = .mapped) (hk : Kept cfg v place records expires)
    (hnow : c.releaseNow < expires + removeExpiredPagesDelaySec)
    (hglobal : v.globalExpireAt < expires + removeExpiredPagesDelaySec) :
    Kept cfg (v.releaseExpiredMemoryPages cfg c).2 place records expires := by
  obtain ⟨-, -, hleaves, hneeded⟩ := h.release hcur hshort c hopens
  refine hk.leaves hleaves fun j hexpires hused => hneeded j ⟨hused, ?_⟩
  rw [Nat.mod_eq_of_lt (h.early j)]
  omega

/-- **A place is kept until it expires**, or until low memory raises `global_expire_at` to its last second. -/
theorem Kept.addRecord (h : Alone cfg v) (hcur : Current v) (hshort : ShortNames cfg) {c : Calls}
    (hopens : ∀ name, c.opens name = .mapped) (more : List α) {lifetime : ℕ}
    (hearly : c.now + cfg.lifetime lifetime + removeExpiredPagesDelaySec < 2 ^ 32)
    (hk : Kept cfg v place records expires) (hnow : c.releaseNow < expires + removeExpiredPagesDelaySec)
    (hglobal : v.globalExpireAt < expires + removeExpiredPagesDelaySec) :
    Kept cfg (v.addRecord cfg c more lifetime).2 place records expires ∨ expires < c.now ∨
      c.memLow = true ∧ expires ≤ (v.addRecord cfg c more lifetime).2.globalExpireAt := by
  have hk₁ := hk.release h hcur hshort hopens hnow hglobal
  obtain ⟨-, -, ⟨err, hadd⟩ | ⟨r, v', hadd, hplaced⟩⟩ := h.addRecord hcur hshort hopens more hearly
  · rw [hadd]
    exact .inl hk₁
  · rw [hadd]
    exact hk₁.placed hplaced

/-- What is kept is read. -/
theorem Kept.getElementData (h : Alone cfg v) (hshort : ShortNames cfg) {opens : Bytes → OpenResult}
    (hopens : ∀ name, opens name = .mapped) (hk : Kept cfg v place records expires) :
    ∃ own, v.getElementData place opens = (.ok records, { v with own := own }) ∧
      ∀ page ∈ own.openedPagesList, page ∈ v.own.openedPagesList ∨ v.shared.names page.1 = some page.2 := by
  obtain ⟨idx, o, hname, hsize, hused, -, -, hn, helements⟩ := hk
  obtain ⟨own, hget, hopened⟩ := getPageByName_named hn (h.live _ o hn).1 (fun o' => h.local_eq hn)
    (pageName_ne_nil idx) (hshort idx (h.range idx hused))
  refine ⟨own, ?_, fun page hpage => ?_⟩
  · have hread : ({ v with own := own } : View α).readElements o place.index.toNat place.size.toNat = records := by
      unfold View.readElements
      rw [hsize]
      apply List.ext_getElem
      · simp
      · intro i hi hi'
        simpa using helements i hi'
    unfold View.getElementData
    rw [hname, hopens, hget]
    dsimp only
    rw [hread]
  · rcases hopened page hpage with hold | rfl
    · exact .inl hold
    · exact .inr hn

/-! ## Scans -/

theorem AllOf.addRecord (hall : AllOf cfg P v) (h : Alone cfg v) (hcur : Current v) (hshort : ShortNames cfg) {c : Calls}
    (hopens : ∀ name, c.opens name = .mapped) {lifetime : ℕ}
    (hearly : c.now + cfg.lifetime lifetime + removeExpiredPagesDelaySec < 2 ^ 32) (hrecords : ∀ e ∈ records, P e) :
    AllOf cfg P (v.addRecord cfg c records lifetime).2 := by
  obtain ⟨h₁, -, hleaves, -⟩ := h.release hcur hshort c hopens
  have hall₁ := hall.leaves h hleaves
  obtain ⟨-, -, ⟨err, hadd⟩ | ⟨r, v', hadd, hplaced⟩⟩ := h.addRecord hcur hshort hopens records hearly
  · rw [hadd]
    exact hall₁
  · rw [hadd]
    exact hall₁.placed h₁ hplaced hrecords

/-- What the loop of `processRecords` reads from used entries was added. -/
theorem Alone.scanLoop (h : Alone cfg v) (hcur : Current v) (hshort : ShortNames cfg) {opens : Bytes → OpenResult}
    (hopens : ∀ name, opens name = .mapped) (hall : AllOf cfg P v) (todo : List ℕ)
    (hused : ∀ idx ∈ todo, 0 < (v.shared.index idx).expireAt) :
    ∃ res own, v.scanLoop cfg opens todo = (res, { v with own := own }) ∧
      (∀ page ∈ own.openedPagesList, v.shared.names page.1 = some page.2) ∧
      ∀ elements, res = .ok elements → ∀ e ∈ elements, P e := by
  -- the pages are read in turn, and reading one changes only what the process has opened
  induction todo generalizing v with
  | nil =>
    refine ⟨_, v.own, rfl, hcur, fun elements hres e he => ?_⟩
    cases hres
    cases he
  | cons idx rest ih =>
    have husedIdx := hused idx List.mem_cons_self
    unfold View.scanLoop
    dsimp only
    rcases h.names idx with hnil | hname
    · -- the page has no name
      rw [hnil, h.getPageByName_nil hcur]
      refine ⟨_, v.own, rfl, hcur, fun elements hres => ?_⟩
      cases hres
    · -- the page is the entry's own, and what is read of it is below the size of the entry
      obtain ⟨o, own, hn, hget, h₁, hcur₁⟩ := h.getPageByName_used hcur hshort husedIdx
      rw [hname, hopens, hget]
      dsimp only
      obtain ⟨res, own', hscan, hcur', hread⟩ := ih h₁ hcur₁ hall fun j hj => hused j (List.mem_cons_of_mem idx hj)
      rw [hscan]
      rcases res with err | elements
      · refine ⟨_, own', rfl, hcur', fun elements hres => ?_⟩
        cases hres
      · refine ⟨_, own', rfl, hcur', fun all hres e he => ?_⟩
        cases hres
        rcases List.mem_append.1 he with hpage | hrest
        · obtain ⟨i, hi, rfl⟩ := List.mem_map.1 hpage
          have hbound := h.bounded idx (h.range idx husedIdx) husedIdx
          have hlt := List.mem_range.1 hi
          rw [TablePageIndexElement.used, subWord_eq hbound cfg.maxElements_lt] at hlt
          exact hall idx o husedIdx hn (0 + i) (by omega)
        · exact hread elements rfl e hrest

/-- **What a scan delivers was added.** -/
theorem Alone.processRecords (h : Alone cfg v) (hcur : Current v) (hshort : ShortNames cfg) {c : Calls}
    (hopens : ∀ name, c.opens name = .mapped) (hall : AllOf cfg P v) :
    Alone cfg (v.processRecords cfg c).2 ∧ Current (v.processRecords cfg c).2 ∧ AllOf cfg P (v.processRecords cfg c).2 ∧
      (v.processRecords cfg c).2.globalExpireAt = v.globalExpireAt ∧
      ∀ elements, (v.processRecords cfg c).1 = .ok elements → ∀ e ∈ elements, P e := by
  obtain ⟨h₁, hcur₁, hleaves, -⟩ := h.release hcur hshort c hopens
  have hall₁ := hall.leaves h hleaves
  have hglobal := hleaves.global
  unfold View.processRecords
  rcases hrel : v.releaseExpiredMemoryPages cfg c with ⟨_ | err, v₁⟩
  swap
  · rw [hrel] at h₁ hcur₁ hall₁ hglobal
    exact ⟨h₁, hcur₁, hall₁, hglobal, nofun⟩
  rw [hrel] at h₁ hcur₁ hall₁ hglobal
  dsimp only at h₁ hcur₁ hall₁ hglobal ⊢
  split_ifs
  swap
  · exact ⟨h₁, hcur₁, hall₁, hglobal, nofun⟩
  obtain ⟨res, own, hscan, hcur', hread⟩ := h₁.scanLoop hcur₁ hshort hopens hall₁ (v₁.recordsToScan cfg c.now)
    fun idx hidx => Nat.zero_lt_of_lt (mem_recordsToScan _ _ hidx).2.2.1
  rw [hscan]
  exact ⟨h₁.of_shared rfl rfl rfl rfl fun page hpage => .inr (hcur' page hpage), hcur', hall₁, hglobal, hread⟩

end Operations

end DealsServer
