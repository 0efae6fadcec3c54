import DealsServer.Proof.LiveRecords
import DealsServer.Proof.Pages

/-!
# Operations that fail

* `leavesIndex_iff`: a failing `addRecord` leaves the index as the maintenance at its start left it exactly if
  the page it has chosen can be mapped, or the reservation writes what the entry already says.
* `failedAdd_reserves`: a page that cannot be opened leaves a slot that was never written.
* `usedPrefix_iff`: in every state of a run the used entries are the first ones exactly if no `cleanup` meets a
  page it cannot map after one it has cleared.
* `failedCleanup_gap`: such a `cleanup` leaves a gap at the head of the index.
-/

namespace DealsServer

open StateMachine

variable {α : Type} {cfg : TableConfig}

/-! ## A reservation without its page -/

/-- The entry already says what the reservation writes. -/
structure Unmoved (cfg : TableConfig) (v : View α) (type : PageType) (k now count lifetime : ℕ) : Prop where
  available : subWord (if type = .current then (v.shared.index k).pageElementsAvailable else cfg.maxElementsInPage)
    count = (v.shared.index k).pageElementsAvailable
  expireAt : max (if type = .current then (v.shared.index k).expireAt else 0) (cfg.expireTime now lifetime) =
    (v.shared.index k).expireAt
  pageName : type = .new →
    ((v.shared.index k).copyName (cfg.pageName k)).pageName = (v.shared.index k).pageName
  global : type = .oldest → (v.shared.index k).expireAt ≤ v.globalExpireAt

theorem reservedEntry_mk (record : TablePageIndexElement) (now count lifetime : ℕ) :
    reservedEntry cfg record now count lifetime =
      ⟨max record.expireAt (cfg.expireTime now lifetime), subWord record.pageElementsAvailable count,
        record.pageName⟩ := by
  rw [reservedEntry, updateExpire_eq]

/-- The reservation writes what the entry says only if nothing in it moves. -/
theorem reservedEntry_eq_iff {type : PageType} {k now count lifetime : ℕ} {record : TablePageIndexElement}
    (htype : type ≠ .unknown) :
    reservedEntry cfg (readyRecord cfg type k record) now count lifetime = record ↔
      subWord (if type = .current then record.pageElementsAvailable else cfg.maxElementsInPage) count =
          record.pageElementsAvailable ∧
        max (if type = .current then record.expireAt else 0) (cfg.expireTime now lifetime) = record.expireAt ∧
        (type = .new → (record.copyName (cfg.pageName k)).pageName = record.pageName) := by
  rw [reservedEntry_mk]
  obtain ⟨expireAt, available, pageName⟩ := record
  cases type
  · simp [readyRecord, TablePageIndexElement.clear]
    tauto
  · simp [readyRecord, TablePageIndexElement.clear]
    tauto
  · simp [readyRecord, TablePageIndexElement.clear, TablePageIndexElement.copyName]
    tauto
  · simp [readyRecord]
    tauto
  · exact absurd rfl htype

/-- What a reservation leaves is what was there exactly if nothing in the entry moves. -/
theorem unmoved_iff {v : View α} {type : PageType} {k now count lifetime : ℕ} (hknown : type ≠ .unknown) :
    Unmoved cfg v type k now count lifetime ↔
      Function.update v.shared.index k
          (reservedEntry cfg (readyRecord cfg type k (v.shared.index k)) now count lifetime) = v.shared.index ∧
        (if type = .oldest then max v.globalExpireAt (v.shared.index k).expireAt else v.globalExpireAt) =
          v.globalExpireAt := by
  rw [Function.update_eq_self_iff, reservedEntry_eq_iff hknown]
  constructor
  · rintro ⟨havailable, hexpire, hname, hglobal⟩
    refine ⟨⟨havailable, hexpire, hname⟩, ?_⟩
    split_ifs with hold
    · exact max_eq_left (hglobal hold)
    · rfl
  · rintro ⟨⟨havailable, hexpire, hname⟩, hglobal⟩
    refine ⟨havailable, hexpire, hname, fun hold => ?_⟩
    rw [if_pos hold] at hglobal
    exact hglobal ▸ le_max_right _ _

/-- What the mapping of a page depends on. -/
theorem maps_of_same {v v' : View α} {name : Bytes}
    (hlocal : v'.own.localGetPageByName name = v.own.localGetPageByName name)
    (hname : v'.shared.names name = v.shared.names name)
    (hsized : ∀ o, v.shared.names name = some o → (v'.shared.objects o).sized = (v.shared.objects o).sized)
    (res : OpenResult) : Maps v' name res ↔ Maps v name res := by
  unfold Maps
  rw [hlocal, hname]
  rcases hn : v.shared.names name with _ | o
  · exact Iff.rfl
  · dsimp only
    rw [hsized o hn]

section Operations

variable [Inhabited α]

variable {v v₁ : View α} {c : Calls} {records : List α} {type : PageType} {k : ℕ}

/-- The table with slots of the entry `k` handed out. -/
def View.reserved (cfg : TableConfig) (v : View α) (type : PageType) (k now count lifetime : ℕ) : View α :=
  { v with
    globalExpireAt := if type = .oldest then max v.globalExpireAt (v.shared.index k).expireAt else v.globalExpireAt
    shared := v.shared.setEntry k
      (reservedEntry cfg (readyRecord cfg type k (v.shared.index k)) now count lifetime) }

/-- The call comes to its reservation, on the entry `k`. -/
structure Comes (cfg : TableConfig) (v v₁ : View α) (c : Calls) (count : ℕ) (type : PageType) (k : ℕ) : Prop where
  release : v.releaseExpiredMemoryPages cfg c = (none, v₁)
  count_le : count ≤ cfg.maxElementsInPage
  lock : c.lock = true
  select : v₁.selectPage cfg c.now c.memLow count = (type, k)
  known : type ≠ .unknown

omit [Inhabited α] in
/-- The reservation does not touch the pages. -/
theorem reserved_maps (cfg : TableConfig) (v : View α) (type : PageType) (k now count lifetime : ℕ) (name : Bytes)
    (res : OpenResult) : Maps (v.reserved cfg type k now count lifetime) name res ↔ Maps v name res :=
  maps_of_same rfl rfl (fun _ _ => rfl) res

/-- After its reservation, an `addRecord` ends with the mapping of the page. -/
theorem Comes.outcome (h : Comes cfg v v₁ c records.length type k) (lifetime : ℕ) :
    (∃ err v₂, (v₁.reserved cfg type k c.now records.length lifetime).getPageByName (cfg.pageName k)
          (c.opens (cfg.pageName k)) = (.error err, v₂) ∧ v.addRecord cfg c records lifetime = (.error err, v₂)) ∨
      ∃ o v₂ place start, (v₁.reserved cfg type k c.now records.length lifetime).getPageByName (cfg.pageName k)
          (c.opens (cfg.pageName k)) = (.ok o, v₂) ∧
        v.addRecord cfg c records lifetime = (.ok place, { v₂ with shared := v₂.shared.copy o start records }) := by
  have hres := reserve_eq lifetime h.count_le h.select h.known
  obtain ⟨err, v₁', hrel, -⟩ | ⟨v₁', hrel, hrest⟩ := addRecord_cases cfg v c records lifetime
  · rw [h.release] at hrel
    cases hrel
  rw [h.release] at hrel
  cases hrel
  obtain ⟨err, -, hwhy⟩ | ⟨r, w, -, hres', hopen⟩ := hrest
  · rcases hwhy h.lock with hlt | hunknown
    · have := h.count_le
      omega
    · rw [h.select] at hunknown
      exact absurd hunknown h.known
  rw [hres] at hres'
  obtain ⟨hr, hw⟩ := Prod.mk.inj hres'
  cases hr
  obtain rfl : v₁.reserved cfg type k c.now records.length lifetime = w := hw
  obtain ⟨err, v₂, hget, hadd⟩ | ⟨o, v₂, hget, hadd⟩ := hopen
  · exact .inl ⟨err, v₂, hget, hadd⟩
  · exact .inr ⟨o, v₂, _, _, hget, hadd⟩

/-- An `addRecord` that comes to its reservation fails exactly if it cannot map the page, and then leaves the
reservation behind. -/
theorem Comes.addRecord (h : Comes cfg v v₁ c records.length type k) (lifetime : ℕ) :
    (Maps v₁ (cfg.pageName k) (c.opens (cfg.pageName k)) →
      ∃ place, (v.addRecord cfg c records lifetime).1 = .ok place) ∧
    (¬ Maps v₁ (cfg.pageName k) (c.opens (cfg.pageName k)) →
      (∃ err, (v.addRecord cfg c records lifetime).1 = .error err) ∧
        (v.addRecord cfg c records lifetime).2.shared.index = Function.update v₁.shared.index k
          (reservedEntry cfg (readyRecord cfg type k (v₁.shared.index k)) c.now records.length lifetime) ∧
        (v.addRecord cfg c records lifetime).2.globalExpireAt =
          if type = .oldest then max v₁.globalExpireAt (v₁.shared.index k).expireAt else v₁.globalExpireAt) := by
  rw [← reserved_maps cfg v₁ type k c.now records.length lifetime, maps_iff]
  obtain ⟨err, v₂, hget, hadd⟩ | ⟨o, v₂, place, start, hget, hadd⟩ := h.outcome lifetime
  · have hsame := getPageByName_same (v₁.reserved cfg type k c.now records.length lifetime) (cfg.pageName k)
      (c.opens (cfg.pageName k))
    rw [hget] at hsame ⊢
    rw [hadd]
    refine ⟨?_, fun _ => ⟨⟨err, rfl⟩, hsame.index_eq, hsame.global_eq⟩⟩
    rintro ⟨o, hno⟩
    cases hno
  · rw [hget, hadd]
    exact ⟨fun _ => ⟨place, rfl⟩, fun hno => absurd ⟨o, rfl⟩ hno⟩

/-- An `addRecord` that does not come to its reservation ends where the maintenance left off. -/
theorem addRecord_early (lifetime : ℕ) (h : ¬ ∃ v₁ type k, Comes cfg v v₁ c records.length type k) :
    ∃ err, v.addRecord cfg c records lifetime = (.error err, (v.releaseExpiredMemoryPages cfg c).2) := by
  obtain ⟨err, v₁, hrel, hadd⟩ | ⟨v₁, hrel, ⟨err, hadd, -⟩ | ⟨r, v₂, hlock, hres, -⟩⟩ :=
    addRecord_cases cfg v c records lifetime
  · exact ⟨err, by rw [hadd, hrel]⟩
  · exact ⟨err, by rw [hadd, hrel]⟩
  · obtain ⟨err, hfail, -⟩ | ⟨type, k, hcount, hsel, hknown⟩ :=
      reserve_shape cfg v₁ c.now records.length lifetime c.memLow
    · rw [hfail] at hres
      cases hres
    · exact absurd ⟨v₁, type, k, hrel, hcount, hlock, hsel, hknown⟩ h

/-- If `addRecord` comes to its reservation, the page can be mapped, or nothing in the entry moves. -/
def PageReady (cfg : TableConfig) (v : View α) (c : Calls) (records : List α) (lifetime : ℕ) : Prop :=
  ∀ v₁ type k, Comes cfg v v₁ c records.length type k →
    Maps v₁ (cfg.pageName k) (c.opens (cfg.pageName k)) ∨ Unmoved cfg v₁ type k c.now records.length lifetime

/-- If `addRecord` throws, index and `global_expire_at` are what the maintenance at its start left. -/
def LeavesIndex (cfg : TableConfig) (v : View α) (c : Calls) (records : List α) (lifetime : ℕ) : Prop :=
  ∀ err, (v.addRecord cfg c records lifetime).1 = .error err →
    (v.addRecord cfg c records lifetime).2.shared.index = (v.releaseExpiredMemoryPages cfg c).2.shared.index ∧
      (v.addRecord cfg c records lifetime).2.globalExpireAt =
        (v.releaseExpiredMemoryPages cfg c).2.globalExpireAt

/-- **When a failing `addRecord` leaves the index as it was.** -/
theorem leavesIndex_iff (cfg : TableConfig) (v : View α) (c : Calls) (records : List α) (lifetime : ℕ) :
    LeavesIndex cfg v c records lifetime ↔ PageReady cfg v c records lifetime := by
  constructor
  · intro h v₁ type k hcomes
    by_contra hmiss
    push Not at hmiss
    obtain ⟨⟨err, herr⟩, hindex, hglobal⟩ := (hcomes.addRecord lifetime).2 hmiss.1
    have hkept := h err herr
    rw [hindex, hglobal, hcomes.release] at hkept
    exact hmiss.2 ((unmoved_iff hcomes.known).2 hkept)
  · intro h err herr
    by_cases hcomes : ∃ v₁ type k, Comes cfg v v₁ c records.length type k
    · obtain ⟨v₁, type, k, hcomes⟩ := hcomes
      obtain ⟨hmaps, hfails⟩ := hcomes.addRecord lifetime
      by_cases hm : Maps v₁ (cfg.pageName k) (c.opens (cfg.pageName k))
      · obtain ⟨place, hok⟩ := hmaps hm
        rw [hok] at herr
        cases herr
      · have hunmoved := (h v₁ type k hcomes).resolve_left hm
        obtain ⟨-, hindex, hglobal⟩ := hfails hm
        rw [hindex, hglobal, hcomes.release]
        exact (unmoved_iff hcomes.known).1 hunmoved
    · obtain ⟨err', hadd⟩ := addRecord_early lifetime hcomes
      rw [hadd]
      exact ⟨rfl, rfl⟩

end Operations

/-- A page that cannot be opened: the slot stays handed out, and the next search reads it. -/
theorem failedAdd_reserves :
    let v : View UInt8 := ⟨.init, 0, .init⟩
    let c : Calls := ⟨100, true, 100, true, false, fun _ => .cannotOpen⟩
    let v' := (v.addRecord smallTable c [7] 0).2
    (v.addRecord smallTable c [7] 0).1 = .error .cannotOpenShmemPage ∧
      v'.shared.index 0 = ⟨160, 9, str "T:0"⟩ ∧
      (v'.processRecords smallTable ⟨101, true, 101, true, false, fun _ => .mapped⟩).1 = .ok [0] ∧
      ¬ LeavesIndex smallTable v c [7] 0 := by
  intro v c v'
  have herr : (v.addRecord smallTable c [7] 0).1 = .error .cannotOpenShmemPage := by rfl
  have hentry : v'.shared.index 0 = ⟨160, 9, str "T:0"⟩ := by decide +kernel
  have hscan : (v'.processRecords smallTable ⟨101, true, 101, true, false, fun _ => .mapped⟩).1 = .ok [0] := by
    decide +kernel
  refine ⟨herr, hentry, hscan, fun h => ?_⟩
  have hkept := congrFun (h _ herr).1 0
  rw [hentry] at hkept
  revert hkept
  decide +kernel

/-! ## A cleanup that fails -/

/-- There is a `k` such that the entries below `k` are used and all others are not, and so every scan passes
every live entry. -/
structure UsedPrefix (cfg : TableConfig) (s : Processes α) : Prop where
  split : ∃ k ≤ cfg.tableMaxPages, (∀ i < k, 0 < (s.shared.index i).expireAt) ∧
    ∀ i, k ≤ i → i < cfg.tableMaxPages → (s.shared.index i).expireAt = 0
  scanned : ∀ now, ∀ i < cfg.tableMaxPages, now < (s.shared.index i).expireAt →
    s.globalExpireAt < (s.shared.index i).expireAt →
    i ∈ recordsToScan s.shared.index s.globalExpireAt now cfg.tableMaxPages 0

theorem usedPrefix_of_usedFirst {s : Processes α} (h : UsedFirst cfg s.shared.index) : UsedPrefix cfg s := by
  constructor
  · -- the first unused entry, or the end of the index
    have hends : ∀ n ≤ cfg.tableMaxPages, (∀ i < n, 0 < (s.shared.index i).expireAt) ∨
        ∃ k < n, (∀ i < k, 0 < (s.shared.index i).expireAt) ∧ (s.shared.index k).expireAt = 0 := by
      intro n
      induction n with
      | zero => exact fun _ => .inl fun i hi => absurd hi (Nat.not_lt_zero i)
      | succ n ih =>
        intro hn
        rcases ih (by omega) with hall | ⟨k, hk, hbefore, hzero⟩
        · by_cases hused : 0 < (s.shared.index n).expireAt
          · left
            intro i hi
            rcases Nat.eq_or_lt_of_le (Nat.le_of_lt_succ hi) with rfl | hlt
            · exact hused
            · exact hall i hlt
          · exact .inr ⟨n, Nat.lt_succ_self n, hall, by omega⟩
        · exact .inr ⟨k, by omega, hbefore, hzero⟩
    rcases hends cfg.tableMaxPages le_rfl with hall | ⟨k, hk, hbefore, hzero⟩
    · exact ⟨_, le_rfl, hall, fun i hi hlt => by omega⟩
    · refine ⟨k, hk.le, hbefore, fun i hi hlt => ?_⟩
      by_contra hne
      rcases Nat.eq_or_lt_of_le hi with rfl | hki
      · exact hne hzero
      · have := h k i hki hlt (Nat.pos_of_ne_zero hne)
        omega
  · intro now i hi hnow hglobal
    -- every entry before a live one is used, so the scan reaches it
    apply mem_recordsToScan_of_live _ _ (Nat.zero_le i) (by omega) _ hnow hglobal
    intro j _ hj
    rcases Nat.eq_or_lt_of_le hj with rfl | hlt
    · omega
    · exact h j i hlt hi (by omega)

theorem usedFirst_of_usedPrefix {s : Processes α} (h : UsedPrefix cfg s) : UsedFirst cfg s.shared.index := by
  obtain ⟨k, -, hused, hfree⟩ := h.split
  intro i j hij hj hpos
  by_cases hik : i < k
  · exact hused i hik
  · have := hfree j (by omega) hj
    omega

/-- A `cleanup` that begins can map the page of every used entry up to the first unused one, or not even that of
the first entry. -/
def CleanupWhole (cfg : TableConfig) (s : Processes α) (a : Action α) : Prop :=
  ∀ pid op, a.actor = .process pid op → (s.processes pid).pc = .locked .cleanup →
    ∀ c, 0 < c → c < cfg.tableMaxPages → (∀ j ≤ c, 0 < (s.shared.index j).expireAt) →
      (∀ j < c, Maps (s.view pid) (s.shared.index j).pageName (a.opens (s.shared.index j).pageName)) →
      Maps (s.view pid) (s.shared.index c).pageName (a.opens (s.shared.index c).pageName)

theorem cleanupWhole_of_pc {s : Processes α} {a : Action α} {pid : ℕ} {op : Op α}
    (hactor : a.actor = .process pid op)
    (hpc : match (s.processes pid).pc with
      | .locked .cleanup => False
      | _ => True) : CleanupWhole cfg s a := by
  intro pid' op' hactor' hlocked
  rw [hactor] at hactor'
  cases hactor'
  rw [hlocked] at hpc
  exact hpc.elim

section Cleanup

variable [Inhabited α]

theorem local_append (own : TableLocal) (page name : Bytes) (o : ℕ) (hne : name ≠ page) :
    ({ own with openedPagesList := own.openedPagesList ++ [(page, o)] } : TableLocal).localGetPageByName name =
      own.localGetPageByName name := by
  simp [TableLocal.localGetPageByName, List.find?_append, hne.symm]

theorem local_append_self (own : TableLocal) (page : Bytes) (o : ℕ) (h : own.localGetPageByName page = none) :
    ({ own with openedPagesList := own.openedPagesList ++ [(page, o)] } : TableLocal).localGetPageByName page =
      some o := by
  have hfind : own.openedPagesList.find? (fun p => p.1 = page) = none := by
    simpa [TableLocal.localGetPageByName] using h
  simp [TableLocal.localGetPageByName, List.find?_append, hfind]

/-- A page that was mapped is open then, and which other pages can be mapped does not change. -/
theorem getPageByName_maps {v w : View α} {page : Bytes} {o : ℕ} {opens : Bytes → OpenResult} (hs : Sound v.shared)
    (h : v.getPageByName page (opens page) = (.ok o, w)) :
    w.own.localGetPageByName page = some o ∧ ∀ name, Maps w name (opens name) ↔ Maps v name (opens name) := by
  have hpage : Maps v page (opens page) := (maps_iff v page (opens page)).2 ⟨o, by rw [h]⟩
  obtain ⟨o', hlocal, hget⟩ | ⟨hlocal, ⟨o', sh, hget, hopen⟩ | ⟨err, sh, hget, -⟩⟩ :=
    getPageByName_cases v page (opens page)
  · rw [h] at hget
    cases hget
    exact ⟨hlocal, fun name => Iff.rfl⟩
  · rw [h] at hget
    cases hget
    have hself := local_append_self v.own page o hlocal
    refine ⟨hself, fun name => ?_⟩
    by_cases hne : name = page
    · rw [hne]
      exact ⟨fun _ => hpage, fun _ => .inl ⟨o, hself⟩⟩
    · apply maps_of_same (local_append v.own page name o hne)
      · obtain ⟨-, -, rfl⟩ | ⟨-, -, rfl⟩ := hopen
        · rfl
        · exact Function.update_of_ne hne _ _
      · intro o' hn
        obtain ⟨-, -, rfl⟩ | ⟨-, -, rfl⟩ := hopen
        · rfl
        · show ((v.shared.create page true).objects o').sized = _
          rw [create_object (hs.allocated name o' hn)]
  · rw [h] at hget
    cases hget

/-- Unlinking the page of an entry does not change which pages can be mapped: it stays open. -/
theorem unlinkEntry_maps {v v' : View α} {idx : ℕ} {opens : Bytes → OpenResult} (hs : Sound v.shared)
    (h : v.unlinkEntry cfg idx opens = (none, v')) (name : Bytes) :
    Maps v' name (opens name) ↔ Maps v name (opens name) := by
  unfold View.unlinkEntry at h
  dsimp only at h
  rcases hget : v.getPageByName (v.shared.index idx).pageName (opens (v.shared.index idx).pageName) with ⟨err | o, w⟩
  · rw [hget] at h
    cases h
  · rw [hget] at h
    cases h
    obtain ⟨hopen, hmaps⟩ := getPageByName_maps hs hget
    rw [← hmaps name]
    by_cases hne : name = (v.shared.index idx).pageName
    · rw [hne]
      exact ⟨fun _ => .inl ⟨o, hopen⟩, fun _ => .inl ⟨o, hopen⟩⟩
    · refine maps_of_same ?_ (Function.update_of_ne hne _ _) (fun o' _ => ?_) _
      · rfl
      show (Function.update w.shared.objects o _ o').sized = _
      by_cases ho : o' = o
      · rw [ho, Function.update_self]
      · rw [Function.update_of_ne ho]

/-- Unlinking fails exactly if the page cannot be mapped. -/
theorem unlinkEntry_fails {v v' : View α} {idx : ℕ} {opens : Bytes → OpenResult} {err : Option TableError}
    (h : v.unlinkEntry cfg idx opens = (err, v')) :
    err = none ↔ Maps v (v.shared.index idx).pageName (opens (v.shared.index idx).pageName) := by
  rw [maps_iff]
  unfold View.unlinkEntry at h
  dsimp only at h
  rcases hget : v.getPageByName (v.shared.index idx).pageName (opens (v.shared.index idx).pageName) with ⟨err | o, w⟩
  · rw [hget] at h
    cases h
    simp
  · rw [hget] at h
    cases h
    simp

/-- Where `cleanup` stops: at the first entry that is not used or whose page cannot be mapped. -/
theorem cleanupLoop_stops (cfg : TableConfig) (opens : Bytes → OpenResult) (n idx : ℕ) (v : View α)
    (hs : Sound v.shared) :
    ∃ c, idx ≤ c ∧ c ≤ idx + n ∧ Clears cfg v (cleanupLoop cfg opens n idx v).2 idx c ∧
      (∀ j, idx ≤ j → j < c → 0 < (v.shared.index j).expireAt ∧
        Maps v (v.shared.index j).pageName (opens (v.shared.index j).pageName)) ∧
      (c < idx + n → (v.shared.index c).expireAt = 0 ∨
        ¬ Maps v (v.shared.index c).pageName (opens (v.shared.index c).pageName)) := by
  induction n generalizing idx v with
  | zero => exact ⟨idx, le_rfl, le_rfl, (SameIndex.refl v).clears le_rfl, fun j _ _ => by omega, fun _ => by omega⟩
  | succ n ih =>
    unfold cleanupLoop
    by_cases hused : (v.shared.index idx).expireAt > 0
    swap
    · rw [if_neg hused]
      exact ⟨idx, le_rfl, by omega, (SameIndex.refl v).clears le_rfl, fun j _ _ => by omega,
        fun _ => .inl (by omega)⟩
    rw [if_pos hused]
    obtain ⟨v₁, hunlink, hclear⟩ | ⟨err, v₁, hunlink, hsame, -⟩ := unlinkEntry_cases cfg v idx opens
    · have hmaps := (unlinkEntry_fails hunlink).1 rfl
      have hkeeps := (unlinkEntry_evolves cfg v idx opens hused).keeps
      rw [hunlink] at hkeeps ⊢
      dsimp only
      -- clearing an entry leaves the later ones, and the pages they map to
      have hindex (j : ℕ) (hj : idx + 1 ≤ j) : v₁.shared.index j = v.shared.index j := by
        rw [hclear.index_eq, if_neg (by omega)]
      obtain ⟨c, h1, h2, h3, h4, h5⟩ := ih (idx + 1) v₁ (hkeeps.sound hs)
      refine ⟨c, by omega, by omega, hclear.append h3 (by omega) h1, fun j hj hjc => ?_, fun hlt => ?_⟩
      · rcases Nat.eq_or_lt_of_le hj with rfl | hlt
        · exact ⟨hused, hmaps⟩
        · have hrest := h4 j hlt hjc
          rwa [hindex j hlt, unlinkEntry_maps hs hunlink] at hrest
      · have hrest := h5 (by omega)
        rwa [hindex c h1, unlinkEntry_maps hs hunlink] at hrest
    · have hmiss := mt (unlinkEntry_fails hunlink).2 (Option.some_ne_none err)
      rw [hunlink]
      exact ⟨idx, le_rfl, by omega, hsame.clears le_rfl, fun j _ _ => by omega, fun _ => .inr hmiss⟩

/-- The clock is positive and expiry times do not overflow. -/
structure Sane (cfg : TableConfig) (s : Processes α) (a : Action α) : Prop where
  pos : 0 < a.now
  overflow : ∀ r count lifetime, Hands cfg s a r count lifetime → a.now + cfg.lifetime lifetime < 2 ^ 32

/-- The invariant of the runs that meet the condition. -/
structure Ordered (cfg : TableConfig) (s : Processes α) : Prop where
  formed : Formed cfg s
  attached : Attached cfg s
  first : UsedFirst cfg s.shared.index

variable {s : Processes α} {a : Action α}

/-- The index after the locked section of `cleanup`. -/
theorem cleanup_step {pid : ℕ} {op : Op α} (hactor : a.actor = .process pid op)
    (hpc : (s.processes pid).pc = .locked .cleanup) :
    (s.step cfg a).shared = (cleanupLoop cfg a.opens cfg.tableMaxPages 0 (s.view pid)).2.shared := by
  simp only [Processes.step, Processes.exec, hactor, hpc, processStep, lockedStep, Processes.put]
  rcases cleanupLoop cfg a.opens cfg.tableMaxPages 0 (s.view pid) with ⟨_ | err, w⟩ <;> rfl

theorem Ordered.step (h : Ordered cfg s) (hsane : Sane cfg s a) (hwhole : CleanupWhole cfg s a) :
    Ordered cfg (s.step cfg a) := by
  refine ⟨h.formed.step a, h.attached.step a, ?_⟩
  apply index_step h.formed.bounded h.first
  · intro pid v' b e hrel _
    exact hrel.usedFirst h.first
  · intro pid op records lifetime r v' hactor hpc hres hv
    apply hv.usedFirst h.first
    have hlt := hsane.overflow r records.length lifetime ⟨pid, op, records, hactor, hpc, rfl, by rw [hres]⟩
    have hpos := hsane.pos
    unfold TableConfig.expireTime
    omega
  · intro pid op v' c' hactor hpc _ hshared
    obtain ⟨c, -, hc, hclears, hbefore, hstop⟩ :=
      cleanupLoop_stops cfg a.opens cfg.tableMaxPages 0 (s.view pid) h.attached.sound
    rw [← hshared, cleanup_step hactor hpc]
    apply hclears.usedFirst h.first
    intro hpos hlt
    by_contra hne
    refine (hstop (by omega)).elim hne fun hmiss => hmiss ?_
    -- all entries up to `c` are used, and those below it can be mapped
    apply hwhole pid op hactor hpc c hpos hlt
    · intro j hj
      rcases Nat.eq_or_lt_of_le hj with rfl | hjc
      · exact Nat.pos_of_ne_zero hne
      · exact (hbefore j (Nat.zero_le j) hjc).1
    · exact fun j hj => (hbefore j (Nat.zero_le j) hj).2

/-- A `cleanup` that misses the condition leaves a gap at the head of the index. -/
theorem gap_step (h : Ordered cfg s) (hmiss : ¬ CleanupWhole cfg s a) :
    ¬ UsedFirst cfg (s.step cfg a).shared.index := by
  unfold CleanupWhole at hmiss
  push Not at hmiss
  obtain ⟨pid, op, hactor, hpc, c, hpos, hlt, hused, hmaps, hfail⟩ := hmiss
  obtain ⟨c', -, -, hclears, hbefore, hstop⟩ :=
    cleanupLoop_stops cfg a.opens cfg.tableMaxPages 0 (s.view pid) h.attached.sound
  -- the loop stops at `c`
  have hle : c' ≤ c := by
    by_contra hcc
    exact hfail (hbefore c (Nat.zero_le c) (by omega)).2
  have hge : c ≤ c' := by
    by_contra hcc
    have hc' := hused c' (by omega)
    rcases hstop (by omega) with hzero | hno
    · have : (s.shared.index c').expireAt = 0 := hzero
      omega
    · exact hno (hmaps c' (by omega))
  have heq : c' = c := le_antisymm hle hge
  subst heq
  intro hfirst
  rw [cleanup_step hactor hpc] at hfirst
  have hhead := hfirst 0 c' hpos hlt
  rw [hclears.index_eq, hclears.index_eq, if_neg (by omega), if_pos (by omega)] at hhead
  exact absurd (hhead (hused c' le_rfl)) (lt_irrefl 0)

/-- **When the used entries stay first.** -/
theorem usedPrefix_iff (cfg : TableConfig) (as : List (Action α))
    (hsane : Always (Processes.step cfg) (Sane cfg) Processes.init as) :
    (∀ k, UsedPrefix cfg (reached cfg (as.take k))) ↔
      Always (Processes.step cfg) (CleanupWhole cfg) Processes.init as := by
  apply reaches_iff (Sane cfg) (Ordered cfg) (UsedPrefix cfg)
  · intro s a h hsane hok
    exact h.step hsane hok
  · intro s a h _ hmiss hgood
    exact gap_step h hmiss (usedFirst_of_usedPrefix hgood)
  · intro s h
    exact usedPrefix_of_usedFirst h.first
  · exact ⟨formed_init, attached_init, fun _ _ _ _ h => absurd h (lt_irrefl 0)⟩
  · exact hsane

/-- A regular step at a positive clock is sane, and without a `cleanup` it meets the condition. -/
theorem Regular.sane (h : Regular cfg s a) (hpos : 0 < a.now) : Sane cfg s a := by
  refine ⟨hpos, fun r count lifetime hr => ?_⟩
  have := h.overflow r count lifetime hr
  omega

theorem usedPrefix_addThenSelect : UsedPrefix smallTable (reached smallTable addThenSelect) := by
  have hclock : Always (Processes.step smallTable) (fun _ a => 0 < a.now) Processes.init addThenSelect :=
    always_of_forall (by decide) _
  have hsane := (addThenSelect_regular.and hclock).imp fun _ _ h => h.1.sane h.2
  have hwhole : Always (Processes.step smallTable) (CleanupWhole smallTable) Processes.init addThenSelect := by
    refine ⟨?_, ?_, ?_, ?_, ?_, ?_, ?_, ?_, trivial⟩ <;>
      exact cleanupWhole_of_pc rfl trivial
  exact (usedPrefix_iff smallTable addThenSelect hsane).2 hwhole 8

/-- The records fill the first page and begin the second; then a `cleanup` can open only the first. -/
def failedCleanup : List (Action UInt8) :=
  List.replicate 6 (act 0 100 false (.addRecord (List.replicate 10 7) 0)) ++
    List.replicate 5 (act 0 100 false (.addRecord [8] 0)) ++
    List.replicate 2 ⟨100, false, fun name => if name = str "T:1" then .cannotOpen else .mapped, .process 1 .cleanup⟩

/-- A `cleanup` that fails at the second page leaves the first entry unused and the second used. -/
theorem failedCleanup_gap :
    let s := reached smallTable failedCleanup
    (s.shared.index 0).expireAt = 0 ∧ s.shared.index 1 = ⟨160, 9, str "T:1"⟩ ∧
      recordsToScan s.shared.index s.globalExpireAt 101 2 0 = [] ∧ ¬ UsedPrefix smallTable s := by
  intro s
  have hfree : (s.shared.index 0).expireAt = 0 := by decide +kernel
  have hused : s.shared.index 1 = ⟨160, 9, str "T:1"⟩ := by decide +kernel
  refine ⟨hfree, hused, by decide +kernel, fun h => ?_⟩
  have hfirst := usedFirst_of_usedPrefix h 0 1 (by decide) (by decide)
  rw [hfree, hused] at hfirst
  exact absurd (hfirst (by decide)) (lt_irrefl 0)

end Cleanup

end DealsServer
