import DealsServer.Spec.Processes

/-!
# What the locked sections do to the index

* `selectPage_cases`: the page `addRecord` takes, and `reserve_cases`: the entry it leaves.
* `releaseLocked_index`: `release_expired_memory_pages` clears a tail of the used entries, none of which is
  still needed.
* `cleanupLoop_index`: `cleanup` clears the entries up to where it stops.
* `getPageByName_same`: mapping a page leaves the index as it is.
-/

namespace DealsServer

variable {α : Type} {cfg : TableConfig} {v v' : View α}

/-- The lifetime a record gets. -/
def TableConfig.lifetime (cfg : TableConfig) (seconds : ℕ) : ℕ :=
  if seconds ≠ 0 then seconds else cfg.recordExpireSeconds

/-- When a record expires that is added at the clock `now`. -/
def TableConfig.expireTime (cfg : TableConfig) (now seconds : ℕ) : ℕ := (now + cfg.lifetime seconds) % 2 ^ 32

/-- No entry offers more slots than a page has. -/
def Bounded (cfg : TableConfig) (index : ℕ → TablePageIndexElement) : Prop :=
  ∀ idx < cfg.tableMaxPages, 0 < (index idx).expireAt → (index idx).pageElementsAvailable ≤ cfg.maxElementsInPage

/-- The used entries are the first ones. -/
def UsedFirst (cfg : TableConfig) (index : ℕ → TablePageIndexElement) : Prop :=
  ∀ i j, i < j → j < cfg.tableMaxPages → 0 < (index j).expireAt → 0 < (index i).expireAt

theorem subWord_eq {a b : ℕ} (hb : b ≤ a) (ha : a < 2 ^ 32) : subWord a b = a - b := by
  unfold subWord
  omega

/-! ## Choosing a page -/

/-- What the loop of `addRecord` has found when it stops at `k` with the kind `type`. -/
def Found (index : ℕ → TablePageIndexElement) (now count : ℕ) (type : PageType) (k : ℕ) : Prop :=
  type = .expired ∧ 0 < (index k).expireAt ∧ (index k).expireAt < now ∨
    type = .current ∧ 0 < (index k).expireAt ∧ now ≤ (index k).expireAt ∧
      count ≤ (index k).pageElementsAvailable ∨
    type = .new ∧ (index k).expireAt = 0

theorem choosePage_cases {index : ℕ → TablePageIndexElement} {now count : ℕ} {type : PageType} {k m' : ℕ}
    (n idx e m : ℕ) (h : choosePage index now count n idx e m = (type, k, m')) :
    idx ≤ k ∧ (∀ j, idx ≤ j → j < k → 0 < (index j).expireAt) ∧
      (m' = m ∨ m' < idx + n ∧ 0 < (index m').expireAt) ∧
      (type = .unknown ∨ k < idx + n ∧ Found index now count type k) := by
  -- the loop goes on past used entries and remembers the one that expires first
  induction n generalizing idx e m with
  | zero =>
    cases h
    exact ⟨le_rfl, fun j h1 h2 => by omega, .inl rfl, .inl rfl⟩
  | succ n ih =>
    unfold choosePage at h
    dsimp only at h
    rcases hp : (if (index idx).expireAt > 0 ∧ e > (index idx).expireAt then ((index idx).expireAt, idx)
      else (e, m)) with ⟨e₁, m₁⟩
    have hmin : m₁ = m ∨ m₁ < idx + (n + 1) ∧ 0 < (index m₁).expireAt := by
      split_ifs at hp with hc
      · cases hp
        exact .inr ⟨by omega, hc.1⟩
      · cases hp
        exact .inl rfl
    rw [hp] at h
    dsimp only at h
    -- it stops at an expired entry, at one with room, or at an unused one
    split_ifs at h with h1 h2 h3
    · cases h
      exact ⟨le_rfl, fun j _ _ => by omega, hmin, .inr ⟨by omega, .inl ⟨rfl, h1⟩⟩⟩
    · cases h
      refine ⟨le_rfl, fun j _ _ => by omega, hmin, .inr ⟨by omega, .inr (.inl ⟨rfl, h2.1, ?_, h2.2⟩)⟩⟩
      by_contra hlt
      exact h1 ⟨h2.1, by omega⟩
    · cases h
      exact ⟨le_rfl, fun j _ _ => by omega, hmin, .inr ⟨by omega, .inr (.inr ⟨rfl, h3⟩)⟩⟩
    · obtain ⟨hk, hpassed, hm, hfound⟩ := ih _ _ _ h
      refine ⟨by omega, fun j hj hjk => ?_, ?_, ?_⟩
      · rcases Nat.eq_or_lt_of_le hj with rfl | hlt
        · omega
        · exact hpassed j hlt hjk
      · rcases hm with hm | ⟨hm, hused⟩
        · rw [hm]
          exact hmin
        · exact .inr ⟨by omega, hused⟩
      · exact hfound.imp_right fun hf => ⟨by omega, hf.2⟩

/-- **The page that `addRecord` takes.** In low memory, a new page is replaced by a used one, or by the
first entry of an empty index. -/
theorem selectPage_cases {now count : ℕ} {memLow : Bool} {type : PageType} {k : ℕ}
    (h : v.selectPage cfg now memLow count = (type, k)) :
    type = .unknown ∨ k < cfg.tableMaxPages ∧
      (Found v.shared.index now count type k ∧
          (type = .new → memLow = false ∧ ∀ j < k, 0 < (v.shared.index j).expireAt) ∨
        type = .oldest ∧ memLow = true ∧
          (0 < (v.shared.index k).expireAt ∨ k = 0 ∧ (v.shared.index 0).expireAt = 0)) := by
  unfold View.selectPage at h
  rcases hc : choosePage v.shared.index now count cfg.tableMaxPages 0 (2 ^ 32 - 1) 0 with ⟨type', k', m⟩
  rw [hc] at h
  obtain ⟨-, hpassed, hm, hfound⟩ := choosePage_cases _ _ _ _ hc
  simp only at h
  -- in low memory a new page is given up for the oldest
  split_ifs at h with hlow
  · obtain ⟨rfl, hmem⟩ := hlow
    cases h
    right
    rcases hfound with hunknown | ⟨hlt, hf⟩
    · cases hunknown
    have hzero : (v.shared.index k').expireAt = 0 := by
      rcases hf with ⟨ht, -⟩ | ⟨ht, -⟩ | ⟨-, hz⟩
      · cases ht
      · cases ht
      · exact hz
    rcases hm with rfl | ⟨hm, hused⟩
    · refine ⟨by omega, .inr ⟨rfl, hmem, ?_⟩⟩
      rcases Nat.eq_zero_or_pos k' with rfl | hpos
      · exact .inr ⟨rfl, hzero⟩
      · exact .inl (hpassed 0 (by omega) hpos)
    · exact ⟨by omega, .inr ⟨rfl, hmem, .inl hused⟩⟩
  · cases h
    refine hfound.imp_right fun hf => ⟨by omega, .inl ⟨hf.2, fun ht => ⟨?_, fun j hj => hpassed j (by omega) hj⟩⟩⟩
    by_contra hmem
    exact hlow ⟨ht, by simpa using hmem⟩

/-- The entry was used and goes on with more records. -/
structure Continues (cfg : TableConfig) (v v' : View α) (now lifetime : ℕ) (r : Reservation) : Prop where
  type_eq : r.type = .current
  used : 0 < (v.shared.index r.idx).expireAt
  not_expired : now ≤ (v.shared.index r.idx).expireAt
  start_eq : r.start + (v.shared.index r.idx).pageElementsAvailable = cfg.maxElementsInPage
  expireAt_eq : (v'.shared.index r.idx).expireAt =
    max (v.shared.index r.idx).expireAt (cfg.expireTime now lifetime)
  pageName_eq : (v'.shared.index r.idx).pageName = (v.shared.index r.idx).pageName
  global_eq : v'.globalExpireAt = v.globalExpireAt

/-- The entry begins anew, expired, new or in place of the oldest. -/
structure Restarts (cfg : TableConfig) (v v' : View α) (now lifetime : ℕ) (memLow : Bool) (r : Reservation) :
    Prop where
  start_eq : r.start = 0
  expireAt_eq : (v'.shared.index r.idx).expireAt = cfg.expireTime now lifetime
  kind :
    (r.type = .expired ∧ 0 < (v.shared.index r.idx).expireAt ∧ (v.shared.index r.idx).expireAt < now ∧
      (v'.shared.index r.idx).pageName = (v.shared.index r.idx).pageName ∧
      v'.globalExpireAt = v.globalExpireAt) ∨
    (r.type = .new ∧ memLow = false ∧ (v.shared.index r.idx).expireAt = 0 ∧
      (∀ j < r.idx, 0 < (v.shared.index j).expireAt) ∧
      (v'.shared.index r.idx).pageName = ((v.shared.index r.idx).copyName (cfg.pageName r.idx)).pageName ∧
      v'.globalExpireAt = v.globalExpireAt) ∨
    (r.type = .oldest ∧ memLow = true ∧
      (0 < (v.shared.index r.idx).expireAt ∨ r.idx = 0 ∧ (v.shared.index 0).expireAt = 0) ∧
      (v'.shared.index r.idx).pageName = (v.shared.index r.idx).pageName ∧
      v'.globalExpireAt = max v.globalExpireAt (v.shared.index r.idx).expireAt)

/-- What the locked section of `addRecord` does when it hands out slots. -/
structure Reserves (cfg : TableConfig) (v v' : View α) (now : ℕ) (memLow : Bool) (count lifetime : ℕ)
    (r : Reservation) : Prop where
  count_le : count ≤ cfg.maxElementsInPage
  idx_lt : r.idx < cfg.tableMaxPages
  frame : v' = { v with
    shared := { v.shared with index := v'.shared.index }, globalExpireAt := v'.globalExpireAt }
  others : ∀ j, j ≠ r.idx → v'.shared.index j = v.shared.index j
  room : r.start + count + (v'.shared.index r.idx).pageElementsAvailable = cfg.maxElementsInPage
  outcome : Continues cfg v v' now lifetime r ∨ Restarts cfg v v' now lifetime memLow r

/-- `update_record_expire` only raises the expiry. -/
theorem updateExpire_eq (record : TablePageIndexElement) (now lifetime : ℕ) :
    record.updateExpire cfg now lifetime =
      { record with expireAt := max record.expireAt (cfg.expireTime now lifetime) } := by
  have hdef : record.updateExpire cfg now lifetime = if cfg.expireTime now lifetime > record.expireAt then
      { record with expireAt := cfg.expireTime now lifetime } else record := rfl
  rw [hdef]
  split_ifs with h
  · rw [max_eq_right h.le]
  · rw [max_eq_left (not_lt.1 h)]

theorem updateExpire_expireAt (record : TablePageIndexElement) (now lifetime : ℕ) :
    (record.updateExpire cfg now lifetime).expireAt = max record.expireAt (cfg.expireTime now lifetime) := by
  rw [updateExpire_eq]

@[simp] theorem updateExpire_pageName (record : TablePageIndexElement) (now lifetime : ℕ) :
    (record.updateExpire cfg now lifetime).pageName = record.pageName := by
  rw [updateExpire_eq]

@[simp] theorem updateExpire_available (record : TablePageIndexElement) (now lifetime : ℕ) :
    (record.updateExpire cfg now lifetime).pageElementsAvailable = record.pageElementsAvailable := by
  rw [updateExpire_eq]

theorem updateGlobalExpire_eq (value : ℕ) :
    v.updateGlobalExpire value = { v with globalExpireAt := max v.globalExpireAt value } := by
  unfold View.updateGlobalExpire
  split_ifs with h
  · rw [max_eq_right (by omega)]
  · rw [max_eq_left (by omega)]

/-- The entry that `reserve` writes, from the record made ready. -/
def reservedEntry (cfg : TableConfig) (record : TablePageIndexElement) (now count lifetime : ℕ) :
    TablePageIndexElement :=
  ({ record with pageElementsAvailable := subWord record.pageElementsAvailable count } :
    TablePageIndexElement).updateExpire cfg now lifetime

theorem reserve_eq {now count : ℕ} (lifetime : ℕ) {memLow : Bool} {type : PageType} {k : ℕ}
    (hcount : count ≤ cfg.maxElementsInPage) (hsel : v.selectPage cfg now memLow count = (type, k))
    (htype : type ≠ .unknown) :
    v.reserve cfg now memLow count lifetime =
      (.ok ⟨type, k, (readyRecord cfg type k (v.shared.index k)).used cfg⟩,
        { v with
          globalExpireAt :=
            if type = .oldest then max v.globalExpireAt (v.shared.index k).expireAt else v.globalExpireAt
          shared := v.shared.setEntry k
            (reservedEntry cfg (readyRecord cfg type k (v.shared.index k)) now count lifetime) }) := by
  unfold View.reserve
  rw [if_neg (by omega), hsel]
  dsimp only
  rw [if_neg htype]
  by_cases hold : type = .oldest
  · simp only [if_pos hold, updateGlobalExpire_eq]
    rfl
  · simp only [if_neg hold]
    rfl

/-- The locked section of `addRecord` fails and leaves all as it is, or it finds a page. -/
theorem reserve_shape (cfg : TableConfig) (v : View α) (now count lifetime : ℕ) (memLow : Bool) :
    (∃ err, v.reserve cfg now memLow count lifetime = (.error err, v) ∧
      (err = .recordSizeToBig count ∧ cfg.maxElementsInPage < count ∨
        err = .noSpaceToInsert ∧ (v.selectPage cfg now memLow count).1 = .unknown)) ∨
    ∃ type k, count ≤ cfg.maxElementsInPage ∧ v.selectPage cfg now memLow count = (type, k) ∧ type ≠ .unknown := by
  by_cases hcount : count > cfg.maxElementsInPage
  · exact .inl ⟨_, by rw [View.reserve, if_pos hcount], .inl ⟨rfl, hcount⟩⟩
  rcases hsel : v.selectPage cfg now memLow count with ⟨type, k⟩
  by_cases hunknown : type = .unknown
  · refine .inl ⟨_, ?_, .inr ⟨rfl, hunknown⟩⟩
    rw [View.reserve, if_neg hcount, hsel]
    exact if_pos hunknown
  · exact .inr ⟨type, k, not_lt.1 hcount, rfl, hunknown⟩

/-- The locked section of `addRecord` writes to the index and to `global_expire_at` only. -/
theorem reserve_frame (cfg : TableConfig) (v : View α) (now count lifetime : ℕ) (memLow : Bool) :
    ∃ index g, (v.reserve cfg now memLow count lifetime).2 =
      { v with shared := { v.shared with index := index }, globalExpireAt := g } := by
  obtain ⟨err, hres, -⟩ | ⟨type, k, hcount, hsel, hknown⟩ := reserve_shape cfg v now count lifetime memLow
  · exact ⟨_, _, by rw [hres]⟩
  · exact ⟨_, _, by rw [reserve_eq lifetime hcount hsel hknown]; rfl⟩

/-- `addRecord` only raises `global_expire_at`. -/
theorem reserve_global (v : View α) (now count lifetime : ℕ) (memLow : Bool) :
    v.globalExpireAt ≤ (v.reserve cfg now memLow count lifetime).2.globalExpireAt := by
  obtain ⟨err, hres, -⟩ | ⟨type, k, hcount, hsel, hknown⟩ := reserve_shape cfg v now count lifetime memLow
  · rw [hres]
  · rw [reserve_eq lifetime hcount hsel hknown]
    dsimp only
    split_ifs
    · exact le_max_left _ _
    · exact le_rfl

theorem used_add {record : TablePageIndexElement} (h : record.pageElementsAvailable ≤ cfg.maxElementsInPage) :
    record.used cfg + record.pageElementsAvailable = cfg.maxElementsInPage := by
  have hmax := cfg.maxElements_lt
  rw [TablePageIndexElement.used, subWord_eq h hmax]
  omega

/-- The slots handed out are the first `count` of those that were free. -/
theorem reservedEntry_room {record : TablePageIndexElement} {now count lifetime : ℕ}
    (h : record.pageElementsAvailable ≤ cfg.maxElementsInPage) (hcount : count ≤ record.pageElementsAvailable) :
    record.used cfg + count + (reservedEntry cfg record now count lifetime).pageElementsAvailable =
      cfg.maxElementsInPage := by
  have hmax := cfg.maxElements_lt
  have hused := used_add h
  rw [reservedEntry, updateExpire_available, subWord_eq hcount (by omega)]
  dsimp only
  omega

/-- **What the locked section of `addRecord` does**: it fails and changes nothing, or it hands out slots. -/
theorem reserve_cases (v : View α) (hb : Bounded cfg v.shared.index) (now count lifetime : ℕ) (memLow : Bool) :
    (∃ err, v.reserve cfg now memLow count lifetime = (.error err, v) ∧
      (err = .noSpaceToInsert ∨ err = .recordSizeToBig count)) ∨
    ∃ r v', v.reserve cfg now memLow count lifetime = (.ok r, v') ∧
      Reserves cfg v v' now memLow count lifetime r := by
  obtain ⟨err, hres, ⟨rfl, -⟩ | ⟨rfl, -⟩⟩ | ⟨type, k, hcount, hsel, hunknown⟩ :=
    reserve_shape cfg v now count lifetime memLow
  · exact .inl ⟨_, hres, .inr rfl⟩
  · exact .inl ⟨_, hres, .inl rfl⟩
  refine .inr ⟨_, _, reserve_eq lifetime hcount hsel hunknown, ?_⟩
  rcases selectPage_cases hsel with h | ⟨hk, h⟩
  · exact absurd h hunknown
  set record := readyRecord cfg type k (v.shared.index k) with hrecord
  set entry := reservedEntry cfg record now count lifetime with hentry
  -- the entry that is written, whatever the kind of the page
  have hself : (v.shared.setEntry k entry).index k = entry := Function.update_self ..
  have hothers (j : ℕ) (hj : j ≠ k) : (v.shared.setEntry k entry).index j = v.shared.index j :=
    Function.update_of_ne hj ..
  have hroom (havail : record.pageElementsAvailable ≤ cfg.maxElementsInPage) (hle : count ≤ record.pageElementsAvailable) :
      record.used cfg + count + ((v.shared.setEntry k entry).index k).pageElementsAvailable = cfg.maxElementsInPage := by
    rw [hself]
    exact reservedEntry_room havail hle
  have hexpire : ((v.shared.setEntry k entry).index k).expireAt =
      max record.expireAt (cfg.expireTime now lifetime) := by
    rw [hself, hentry, reservedEntry, updateExpire_expireAt]
  have hname : ((v.shared.setEntry k entry).index k).pageName = record.pageName := by
    rw [hself]
    exact updateExpire_pageName ..
  -- an entry that begins anew has no slots in use and no expiry time
  have hstart : subWord cfg.maxElementsInPage cfg.maxElementsInPage = 0 := by
    rw [subWord_eq le_rfl cfg.maxElements_lt, Nat.sub_self]
  have hfresh (h0 : record.expireAt = 0) :
      ((v.shared.setEntry k entry).index k).expireAt = cfg.expireTime now lifetime := by
    rw [hexpire, h0, Nat.zero_max]
  rcases h with ⟨⟨rfl, h0, hexp⟩ | ⟨rfl, h0, hexp, havail⟩ | ⟨rfl, h0⟩, hnew⟩ | ⟨rfl, hmem, hused⟩
  · exact ⟨hcount, hk, rfl, hothers, hroom le_rfl hcount,
      .inr ⟨hstart, hfresh rfl, .inl ⟨rfl, h0, hexp, hname, rfl⟩⟩⟩
  · have hle := hb k hk h0
    exact ⟨hcount, hk, rfl, hothers, hroom hle havail, .inl ⟨rfl, h0, hexp, used_add hle, hexpire, hname, rfl⟩⟩
  · obtain ⟨hmem, hpassed⟩ := hnew rfl
    exact ⟨hcount, hk, rfl, hothers, hroom le_rfl hcount,
      .inr ⟨hstart, hfresh rfl, .inr (.inl ⟨rfl, hmem, h0, hpassed, hname, rfl⟩)⟩⟩
  · exact ⟨hcount, hk, rfl, hothers, hroom le_rfl hcount,
      .inr ⟨hstart, hfresh rfl, .inr (.inr ⟨rfl, hmem, hused, hname, rfl⟩)⟩⟩

/-! ## Effects on the index -/

/-- Index, timers and `global_expire_at` stay. -/
structure SameIndex (v v' : View α) : Prop where
  index_eq : v'.shared.index = v.shared.index
  global_eq : v'.globalExpireAt = v.globalExpireAt
  timer_eq : v'.own.timeToCheckPageExpire = v.own.timeToCheckPageExpire

/-- The entries of `[lo, hi)` are cleared, all else of the index stays. -/
structure Clears (cfg : TableConfig) (v v' : View α) (lo hi : ℕ) : Prop where
  index_eq : ∀ j, v'.shared.index j = if lo ≤ j ∧ j < hi then .clearFull cfg else v.shared.index j
  global_eq : v'.globalExpireAt = v.globalExpireAt

/-- The page of an entry is still needed at the clock `now`. -/
def Needed (record : TablePageIndexElement) (globalExpireAt now : ℕ) : Prop :=
  0 < record.expireAt ∧ now < (record.expireAt + removeExpiredPagesDelaySec) % 2 ^ 32 ∧
    globalExpireAt < (record.expireAt + removeExpiredPagesDelaySec) % 2 ^ 32

/-- A release clears `[b, e)`, a tail of the used entries: not the first, and none that is needed. -/
structure Releases (cfg : TableConfig) (v v' : View α) (now b e : ℕ) : Prop where
  le : b ≤ e
  bound : e ≤ cfg.tableMaxPages
  used : ∀ j < e, 0 < (v.shared.index j).expireAt
  first : b < e → 0 < b
  stop : b < e → e < cfg.tableMaxPages → (v.shared.index e).expireAt = 0
  needed : ∀ j < e, Needed (v.shared.index j) v.globalExpireAt now → j < b
  clears : Clears cfg v v' b e

/-- A cleanup clears the used entries below `c`; if it does not fail, these are all up to the first unused. -/
structure CleansUp (cfg : TableConfig) (v v' : View α) (failed : Bool) (c : ℕ) : Prop where
  bound : c ≤ cfg.tableMaxPages
  used : ∀ j < c, 0 < (v.shared.index j).expireAt
  stop : failed = false → c < cfg.tableMaxPages → (v.shared.index c).expireAt = 0
  clears : Clears cfg v v' 0 c

theorem SameIndex.refl (v : View α) : SameIndex v v := ⟨rfl, rfl, rfl⟩

theorem SameIndex.clears (h : SameIndex v v') {lo hi : ℕ} (hle : hi ≤ lo) : Clears cfg v v' lo hi :=
  ⟨fun j => by rw [if_neg (by omega), h.index_eq], h.global_eq⟩

theorem Clears.trans {v'' : View α} {lo mid hi : ℕ} (h : Clears cfg v v' mid hi) (h' : Clears cfg v' v'' lo mid)
    (hlo : lo ≤ mid) (hhi : mid ≤ hi) : Clears cfg v v'' lo hi := by
  refine ⟨fun j => ?_, h'.global_eq.trans h.global_eq⟩
  rw [h'.index_eq, h.index_eq]
  by_cases h1 : lo ≤ j ∧ j < mid
  · rw [if_pos h1, if_pos (by omega)]
  · rw [if_neg h1]
    by_cases h2 : mid ≤ j ∧ j < hi
    · rw [if_pos h2, if_pos (by omega)]
    · rw [if_neg h2, if_neg (by omega)]

theorem Clears.append {v'' : View α} {lo mid hi : ℕ} (h : Clears cfg v v' lo mid) (h' : Clears cfg v' v'' mid hi)
    (hlo : lo ≤ mid) (hhi : mid ≤ hi) : Clears cfg v v'' lo hi := by
  refine ⟨fun j => ?_, h'.global_eq.trans h.global_eq⟩
  rw [h'.index_eq, h.index_eq]
  by_cases h1 : mid ≤ j ∧ j < hi
  · rw [if_pos h1, if_pos (by omega)]
  · rw [if_neg h1]
    by_cases h2 : lo ≤ j ∧ j < mid
    · rw [if_pos h2, if_pos (by omega)]
    · rw [if_neg h2, if_neg (by omega)]

theorem Clears.bounded {lo hi : ℕ} (h : Clears cfg v v' lo hi) (hb : Bounded cfg v.shared.index) :
    Bounded cfg v'.shared.index := by
  intro idx hidx hused
  rw [h.index_eq] at hused ⊢
  split_ifs at hused ⊢ with hc
  · exact le_rfl
  · exact hb idx hidx hused

theorem Reserves.bounded {now count lifetime : ℕ} {memLow : Bool} {r : Reservation}
    (h : Reserves cfg v v' now memLow count lifetime r) (hb : Bounded cfg v.shared.index) :
    Bounded cfg v'.shared.index := by
  intro idx hidx hused
  by_cases hi : idx = r.idx
  · rw [hi]
    have := h.room
    omega
  · rw [h.others idx hi] at hused ⊢
    exact hb idx hidx hused

/-- Clearing up to the first unused entry leaves the used entries first. -/
theorem Clears.usedFirst {lo hi : ℕ} (h : Clears cfg v v' lo hi) (hu : UsedFirst cfg v.shared.index)
    (hstop : lo < hi → hi < cfg.tableMaxPages → (v.shared.index hi).expireAt = 0) :
    UsedFirst cfg v'.shared.index := by
  intro i j hij hj hused
  rw [h.index_eq] at hused ⊢
  by_cases hjin : lo ≤ j ∧ j < hi
  · rw [if_pos hjin] at hused
    exact absurd hused (lt_irrefl 0)
  rw [if_neg hjin] at hused
  have hbelow := hu i j hij hj hused
  by_cases hiin : lo ≤ i ∧ i < hi
  · -- `j` is behind the used entries
    have hle : hi ≤ j := by omega
    have hend := hstop (by omega) (by omega)
    rcases Nat.eq_or_lt_of_le hle with rfl | hlt
    · omega
    · have := hu hi j hlt hj hused
      omega
  · rw [if_neg hiin]
    exact hbelow

theorem Releases.usedFirst {now b e : ℕ} (h : Releases cfg v v' now b e) (hu : UsedFirst cfg v.shared.index) :
    UsedFirst cfg v'.shared.index :=
  h.clears.usedFirst hu h.stop

theorem CleansUp.usedFirst {c : ℕ} (h : CleansUp cfg v v' false c) (hu : UsedFirst cfg v.shared.index) :
    UsedFirst cfg v'.shared.index :=
  h.clears.usedFirst hu fun _ hlt => h.stop rfl hlt

/-- Slots are handed out on a used entry or on the first unused one. -/
theorem Reserves.usedFirst {now count lifetime : ℕ} {memLow : Bool} {r : Reservation}
    (h : Reserves cfg v v' now memLow count lifetime r) (hu : UsedFirst cfg v.shared.index)
    (hexp : 0 < cfg.expireTime now lifetime) : UsedFirst cfg v'.shared.index := by
  have hnew : 0 < (v'.shared.index r.idx).expireAt := by
    rcases h.outcome with hcont | hrest
    · rw [hcont.expireAt_eq]
      exact lt_of_lt_of_le hexp (le_max_right _ _)
    · rw [hrest.expireAt_eq]
      exact hexp
  have hbefore : ∀ i < r.idx, 0 < (v.shared.index i).expireAt := by
    intro i hi
    rcases h.outcome with hcont | hrest
    · exact hu i r.idx hi h.idx_lt hcont.used
    · obtain ⟨-, hpos, -⟩ | ⟨-, -, -, hpassed, -⟩ | ⟨-, -, hpos | ⟨h0, -⟩, -⟩ := hrest.kind
      · exact hu i r.idx hi h.idx_lt hpos
      · exact hpassed i hi
      · exact hu i r.idx hi h.idx_lt hpos
      · omega
  intro i j hij hj hused
  by_cases hi : i = r.idx
  · rw [hi]
    exact hnew
  rw [h.others i hi]
  by_cases hjr : j = r.idx
  · exact hbefore i (by omega)
  · rw [h.others j hjr] at hused
    exact hu i j hij hj hused

/-! ## Pages -/

section Pages

variable [Inhabited α]

/-- How an attempt to map a page that is not open ends. -/
structure OpenFails (sh sh' : SharedMemory α) (name : Bytes) (err : TableError) : Prop where
  empty : err = .emptyPageName → name = []
  effect : sh' = sh ∨ (∃ sized, sh.names name = none ∧ sh' = sh.create name sized) ∨
    ∃ o, sh.names name = some o ∧ (sh.objects o).sized = false ∧ sh' = sh.unlink name

/-- **Opening a page**: the object of the name, a new one, or an error. -/
theorem openPage_cases (sh : SharedMemory α) (name : Bytes) (res : OpenResult) :
    (∃ o, sh.names name = some o ∧ (sh.objects o).sized = true ∧ sh.openPage name res = (.ok o, sh)) ∨
    (sh.names name = none ∧ sh.openPage name res = (.ok sh.nextObject, sh.create name true)) ∨
    ∃ err sh', sh.openPage name res = (.error err, sh') ∧ OpenFails sh sh' name err := by
  unfold SharedMemory.openPage
  -- the errors before the object is looked for
  by_cases hempty : name = []
  · exact .inr (.inr ⟨_, _, if_pos hempty, fun _ => hempty, .inl rfl⟩)
  rw [if_neg hempty]
  by_cases hlong : name.length > mempageNameMaxLen - 6
  · exact .inr (.inr ⟨_, _, if_pos hlong, nofun, .inl rfl⟩)
  rw [if_neg hlong]
  by_cases hsem : res = .noSemaphore
  · exact .inr (.inr ⟨_, _, if_pos hsem, nofun, .inl rfl⟩)
  rw [if_neg hsem]
  by_cases hlock : res = .lockTimeout
  · exact .inr (.inr ⟨_, _, if_pos hlock, nofun, .inl rfl⟩)
  rw [if_neg hlock]
  by_cases hcannot : res = .cannotOpen
  · exact .inr (.inr ⟨_, _, if_pos hcannot, nofun, .inl rfl⟩)
  rw [if_neg hcannot]
  rcases hn : sh.names name with _ | o
  · -- no object has the name: it is created, with its size or without
    cases res
    · exact .inr (.inl ⟨rfl, rfl⟩)
    · exact absurd rfl hsem
    · exact absurd rfl hlock
    · exact absurd rfl hcannot
    · exact .inr (.inr ⟨_, _, rfl, nofun, .inr (.inl ⟨false, hn, rfl⟩)⟩)
    · exact .inr (.inr ⟨_, _, rfl, nofun, .inl rfl⟩)
    · exact .inr (.inr ⟨_, _, rfl, nofun, .inr (.inl ⟨true, hn, rfl⟩)⟩)
  · dsimp only
    by_cases hsized : (sh.objects o).sized = false
    · exact .inr (.inr ⟨_, _, if_pos hsized, nofun, .inr (.inr ⟨o, hn, hsized, rfl⟩)⟩)
    rw [if_neg hsized]
    by_cases hmap : res = .cannotMap
    · exact .inr (.inr ⟨_, _, if_pos hmap, nofun, .inl rfl⟩)
    · exact .inl ⟨o, rfl, by simpa using hsized, if_neg hmap⟩

/-- **Mapping a page**: it is open, it is opened, it is created, or that fails. -/
theorem getPageByName_cases (v : View α) (name : Bytes) (res : OpenResult) :
    (∃ o, v.own.localGetPageByName name = some o ∧ v.getPageByName name res = (.ok o, v)) ∨
    (v.own.localGetPageByName name = none ∧
      ((∃ o sh, v.getPageByName name res = (.ok o, { v with
          shared := sh, own := { v.own with openedPagesList := v.own.openedPagesList ++ [(name, o)] } }) ∧
        (v.shared.names name = some o ∧ (v.shared.objects o).sized = true ∧ sh = v.shared ∨
          v.shared.names name = none ∧ o = v.shared.nextObject ∧ sh = v.shared.create name true)) ∨
      ∃ err sh, v.getPageByName name res = (.error err, { v with shared := sh }) ∧
        OpenFails v.shared sh name err)) := by
  unfold View.getPageByName
  rcases hlocal : v.own.localGetPageByName name with _ | o
  · refine .inr ⟨rfl, ?_⟩
    obtain ⟨o, hn, hsized, hopen⟩ | ⟨hn, hopen⟩ | ⟨err, sh, hopen, hfail⟩ := openPage_cases v.shared name res
    · rw [hopen]
      exact .inl ⟨o, _, rfl, .inl ⟨hn, hsized, rfl⟩⟩
    · rw [hopen]
      exact .inl ⟨_, _, rfl, .inr ⟨hn, rfl, rfl⟩⟩
    · rw [hopen]
      exact .inr ⟨err, sh, rfl, hfail⟩
  · exact .inl ⟨o, rfl, rfl⟩

theorem OpenFails.index_eq {sh sh' : SharedMemory α} {name : Bytes} {err : TableError}
    (h : OpenFails sh sh' name err) : sh'.index = sh.index := by
  obtain rfl | ⟨_, -, rfl⟩ | ⟨_, -, -, rfl⟩ := h.effect <;> rfl

/-- Mapping a page leaves the index as it is. -/
theorem getPageByName_same (v : View α) (name : Bytes) (res : OpenResult) :
    SameIndex v (v.getPageByName name res).2 := by
  obtain ⟨o, -, h⟩ | ⟨-, ⟨o, sh, h, ⟨-, -, rfl⟩ | ⟨-, -, rfl⟩⟩ | ⟨err, sh, h, hfail⟩⟩ :=
    getPageByName_cases v name res
  · rw [h]
    exact ⟨rfl, rfl, rfl⟩
  · rw [h]
    exact ⟨rfl, rfl, rfl⟩
  · rw [h]
    exact ⟨rfl, rfl, rfl⟩
  · rw [h]
    exact ⟨hfail.index_eq, rfl, rfl⟩

/-- Only an empty name fails as one. -/
theorem getPageByName_emptyPageName (v : View α) (name : Bytes) (res : OpenResult)
    (h : (v.getPageByName name res).1 = .error .emptyPageName) : name = [] := by
  obtain ⟨o, -, hget⟩ | ⟨-, ⟨o, sh, hget, -⟩ | ⟨err, sh, hget, hfail⟩⟩ := getPageByName_cases v name res
  · rw [hget] at h
    cases h
  · rw [hget] at h
    cases h
  · rw [hget] at h
    cases h
    exact hfail.empty rfl

/-- **What `addRecord` does**: the maintenance fails; nothing is reserved; the page cannot be mapped; or the
records are copied. -/
theorem addRecord_cases (cfg : TableConfig) (v : View α) (c : Calls) (records : List α) (lifetime : ℕ) :
    (∃ err v₁, v.releaseExpiredMemoryPages cfg c = (some err, v₁) ∧
      v.addRecord cfg c records lifetime = (.error err, v₁)) ∨
    ∃ v₁, v.releaseExpiredMemoryPages cfg c = (none, v₁) ∧
      ((∃ err, v.addRecord cfg c records lifetime = (.error err, v₁) ∧
          (c.lock = true → cfg.maxElementsInPage < records.length ∨
            (v₁.selectPage cfg c.now c.memLow records.length).1 = .unknown)) ∨
        ∃ r v₂, c.lock = true ∧ v₁.reserve cfg c.now c.memLow records.length lifetime = (.ok r, v₂) ∧
          ((∃ err v₃, v₂.getPageByName (cfg.pageName r.idx) (c.opens (cfg.pageName r.idx)) = (.error err, v₃) ∧
              v.addRecord cfg c records lifetime = (.error err, v₃)) ∨
            ∃ o v₃, v₂.getPageByName (cfg.pageName r.idx) (c.opens (cfg.pageName r.idx)) = (.ok o, v₃) ∧
              v.addRecord cfg c records lifetime =
                (.ok ⟨cfg.pageName r.idx, r.start.toUInt32, records.length.toUInt32⟩,
                  { v₃ with shared := v₃.shared.copy o r.start records }))) := by
  unfold View.addRecord
  -- the maintenance comes first, then the lock, the reservation and the page
  rcases hrel : v.releaseExpiredMemoryPages cfg c with ⟨_ | err, v₁⟩
  swap
  · exact .inl ⟨err, v₁, rfl, rfl⟩
  refine .inr ⟨v₁, rfl, ?_⟩
  dsimp only
  by_cases hlock : ¬ c.lock = true ∧ records.length ≤ cfg.maxElementsInPage
  · rw [if_pos hlock]
    exact .inl ⟨_, rfl, fun h => absurd h hlock.1⟩
  rw [if_neg hlock]
  obtain ⟨err, hres, hwhy⟩ | ⟨type, k, hcount, hsel, hunknown⟩ :=
    reserve_shape cfg v₁ c.now records.length lifetime c.memLow
  · rw [hres]
    exact .inl ⟨err, rfl, fun _ => hwhy.imp (·.2) (·.2)⟩
  · have hres := reserve_eq lifetime hcount hsel hunknown
    rw [hres]
    dsimp only
    refine .inr ⟨_, _, ?_, rfl, ?_⟩
    · by_contra hno
      exact hlock ⟨hno, hcount⟩
    rcases hget : View.getPageByName _ (cfg.pageName k) (c.opens (cfg.pageName k)) with ⟨err | o, v₃⟩
    · exact .inl ⟨err, v₃, rfl, rfl⟩
    · exact .inr ⟨o, v₃, rfl, rfl⟩

/-! ## Clearing entries -/

/-- One entry is cleared, or the attempt fails and clears none. -/
theorem unlinkEntry_cases (cfg : TableConfig) (v : View α) (idx : ℕ) (opens : Bytes → OpenResult) :
    (∃ v', v.unlinkEntry cfg idx opens = (none, v') ∧ Clears cfg v v' idx (idx + 1)) ∨
    ∃ err v', v.unlinkEntry cfg idx opens = (some err, v') ∧ SameIndex v v' ∧
      (err = .emptyPageName → (v.shared.index idx).pageName = []) := by
  have hsame := getPageByName_same v (v.shared.index idx).pageName (opens (v.shared.index idx).pageName)
  unfold View.unlinkEntry
  dsimp only
  rcases hget : v.getPageByName (v.shared.index idx).pageName (opens (v.shared.index idx).pageName) with
    ⟨err | o, w⟩
  · rw [hget] at hsame
    refine .inr ⟨err, w, rfl, hsame, ?_⟩
    rintro rfl
    exact getPageByName_emptyPageName v _ _ (by rw [hget])
  · rw [hget] at hsame
    refine .inl ⟨_, rfl, fun j => ?_, hsame.global_eq⟩
    show Function.update w.shared.index idx _ j = _
    by_cases hj : j = idx
    · rw [hj, Function.update_self, if_pos (by omega)]
    · rw [Function.update_of_ne hj, if_neg (by omega), hsame.index_eq]

/-- The loop of `release_expired_memory_pages` clears entries from `idx` down, none up to `last`. -/
theorem releaseLoop_cases (cfg : TableConfig) (opens : Bytes → OpenResult) (last n idx : ℕ) (v : View α) :
    ∃ b, b ≤ idx + 1 ∧ (last < b ∨ b = idx + 1) ∧
      Clears cfg v (releaseLoop cfg opens last n idx v).2 b (idx + 1) ∧
      ((releaseLoop cfg opens last n idx v).1 = some .emptyPageName →
        ∃ j, last < j ∧ j ≤ idx ∧ (v.shared.index j).pageName = []) := by
  induction n generalizing idx v with
  | zero => exact ⟨idx + 1, le_rfl, .inr rfl, (SameIndex.refl v).clears le_rfl, nofun⟩
  | succ n ih =>
    unfold releaseLoop
    by_cases hlast : last < idx
    · rw [if_pos hlast]
      obtain ⟨v₁, hunlink, hclear⟩ | ⟨err, v₁, hunlink, hsame, hempty⟩ := unlinkEntry_cases cfg v idx opens
      · rw [hunlink]
        dsimp only
        obtain ⟨b, hb, hlow, hrest, hrempty⟩ := ih (idx - 1) v₁
        have hidx : idx - 1 + 1 = idx := by omega
        rw [hidx] at hb hlow hrest
        refine ⟨b, by omega, by omega, hclear.trans hrest hb (by omega), fun he => ?_⟩
        obtain ⟨j, hj, hjle, hname⟩ := hrempty he
        refine ⟨j, hj, by omega, ?_⟩
        rwa [hclear.index_eq, if_neg (by omega)] at hname
      · rw [hunlink]
        refine ⟨idx + 1, le_rfl, .inr rfl, hsame.clears le_rfl, fun he => ⟨idx, hlast, le_rfl, hempty ?_⟩⟩
        exact Option.some.inj he
    · rw [if_neg hlast]
      exact ⟨idx + 1, le_rfl, .inr rfl, (SameIndex.refl v).clears le_rfl, nofun⟩

/-- The loop stops at the first unused entry, and no needed entry before it is behind `last`. -/
theorem lastData_cases (index : ℕ → TablePageIndexElement) (g now n idx last : ℕ) {e l : ℕ} (hlast : last ≤ idx)
    (h : lastData index g now n idx last = (e, l)) :
    idx ≤ e ∧ e ≤ idx + n ∧ (∀ j, idx ≤ j → j < e → 0 < (index j).expireAt) ∧
      (e < idx + n → (index e).expireAt = 0) ∧ last ≤ l ∧
      ∀ j, idx ≤ j → j < e → Needed (index j) g now → j ≤ l := by
  -- `last` follows the loop: it is the last needed entry so far
  induction n generalizing idx last with
  | zero =>
    cases h
    exact ⟨le_rfl, le_rfl, fun j _ _ => by omega, fun hlt => by omega, le_rfl, fun j _ _ => by omega⟩
  | succ n ih =>
    unfold lastData at h
    dsimp only at h
    set last' := if (index idx).expireAt > 0 ∧ ((index idx).expireAt + removeExpiredPagesDelaySec) % 2 ^ 32 > now ∧
      ((index idx).expireAt + removeExpiredPagesDelaySec) % 2 ^ 32 > g then idx else last with hl
    have hlast' : last ≤ last' ∧ last' ≤ idx := by
      rw [hl]
      split_ifs <;> omega
    by_cases hzero : (index idx).expireAt = 0
    · rw [if_pos hzero] at h
      obtain ⟨he, hl'⟩ := Prod.mk.inj h
      subst he
      exact ⟨le_rfl, by omega, fun j _ _ => by omega, fun _ => hzero, by omega, fun j _ _ => by omega⟩
    · rw [if_neg hzero] at h
      obtain ⟨h1, h2, h3, h4, h5, h6⟩ := ih (idx + 1) last' (by omega) h
      refine ⟨by omega, by omega, fun j hj hje => ?_, fun hlt => h4 (by omega), by omega, fun j hj hje hneed => ?_⟩
      · rcases Nat.eq_or_lt_of_le hj with rfl | hlt
        · omega
        · exact h3 j hlt hje
      · rcases Nat.eq_or_lt_of_le hj with rfl | hlt
        · have hidx : last' = idx := by
            rw [hl]
            exact if_pos hneed
          omega
        · exact h6 j hlt hje hneed

/-- **What `release_expired_memory_pages` does to the index.** It clears a tail of the used entries, without the
first and without any that is needed. -/
theorem releaseLocked_index (cfg : TableConfig) (v : View α) (now : ℕ) (opens : Bytes → OpenResult) :
    ∃ b e, Releases cfg v (v.releaseLocked cfg now opens).2 now b e ∧
      ((v.releaseLocked cfg now opens).1 = some .emptyPageName →
        ∃ j, 0 < j ∧ j < e ∧ (v.shared.index j).pageName = []) := by
  unfold View.releaseLocked
  dsimp only
  by_cases hdue : v.shared.expirationCheck ≤ now
  swap
  · rw [if_neg hdue]
    exact ⟨0, 0, ⟨le_rfl, by omega, fun j hj => by omega, fun h => by omega, fun h => by omega,
      fun j hj => by omega, ⟨fun j => by rw [if_neg (by omega)], rfl⟩⟩, nofun⟩
  rw [if_pos hdue]
  rcases hdata : lastData v.shared.index v.globalExpireAt now cfg.tableMaxPages 0 0 with ⟨e, l⟩
  obtain ⟨-, he, hused, hend, -, hneed⟩ := lastData_cases _ _ _ _ _ _ le_rfl hdata
  dsimp only
  -- the loop runs from the last used entry down to the one after `l`
  by_cases hloop : e > 0 ∧ l < e - 1
  · rw [if_pos hloop]
    obtain ⟨b, hb, hlow, hclear, hempty⟩ := releaseLoop_cases cfg opens l removeExpiredPagesAtOnce (e - 1)
      (⟨{ v.shared with expirationCheck := (now + checkExpiredPagesIntervalSec) % 2 ^ 32 }, v.globalExpireAt,
        { v.own with timeToCheckPageExpire := (now + checkExpiredPagesIntervalSec) % 2 ^ 32 }⟩ : View α)
    have hsucc : e - 1 + 1 = e := by omega
    rw [hsucc] at hb hlow hclear
    refine ⟨b, e, ⟨hb, by omega, fun j hj => hused j (by omega) hj, fun _ => by omega, fun _ hlt => hend (by omega),
      fun j hj hn => ?_, ⟨hclear.index_eq, hclear.global_eq⟩⟩, fun hfail => ?_⟩
    · have := hneed j (by omega) hj hn
      omega
    · obtain ⟨j, hj, hje, hname⟩ := hempty hfail
      exact ⟨j, by omega, by omega, hname⟩
  · rw [if_neg hloop]
    exact ⟨e, e, ⟨le_rfl, by omega, fun j hj => hused j (by omega) hj, fun h => by omega, fun h => by omega,
      fun j hj _ => hj, ⟨fun j => by rw [if_neg (by omega)], rfl⟩⟩, nofun⟩

theorem cleanupLoop_cases (cfg : TableConfig) (opens : Bytes → OpenResult) (n idx : ℕ) (v : View α) :
    ∃ c, idx ≤ c ∧ c ≤ idx + n ∧ (∀ j, idx ≤ j → j < c → 0 < (v.shared.index j).expireAt) ∧
      Clears cfg v (cleanupLoop cfg opens n idx v).2 idx c ∧
      ((cleanupLoop cfg opens n idx v).1 = none → c < idx + n → (v.shared.index c).expireAt = 0) ∧
      ((cleanupLoop cfg opens n idx v).1 = some .emptyPageName →
        c < idx + n ∧ 0 < (v.shared.index c).expireAt ∧ (v.shared.index c).pageName = []) := by
  induction n generalizing idx v with
  | zero =>
    exact ⟨idx, le_rfl, le_rfl, fun j _ _ => by omega, (SameIndex.refl v).clears le_rfl, fun _ hlt => by omega, nofun⟩
  | succ n ih =>
    -- an unused entry or a failure ends the loop
    unfold cleanupLoop
    by_cases hused : (v.shared.index idx).expireAt > 0
    swap
    · rw [if_neg hused]
      exact ⟨idx, le_rfl, by omega, fun j _ _ => by omega, (SameIndex.refl v).clears le_rfl,
        fun _ _ => by omega, nofun⟩
    rw [if_pos hused]
    obtain ⟨v₁, hunlink, hclear⟩ | ⟨err, v₁, hunlink, hsame, hempty⟩ := unlinkEntry_cases cfg v idx opens
    · rw [hunlink]
      dsimp only
      have hindex (j : ℕ) (hj : idx + 1 ≤ j) : v₁.shared.index j = v.shared.index j := by
        rw [hclear.index_eq, if_neg (by omega)]
      obtain ⟨c, h1, h2, h3, h4, h5, h6⟩ := ih (idx + 1) v₁
      rw [hindex c h1] at h5 h6
      refine ⟨c, by omega, by omega, fun j hj hjc => ?_, ?_, fun hn hlt => h5 hn (by omega), fun he => ?_⟩
      · rcases Nat.eq_or_lt_of_le hj with rfl | hlt
        · exact hused
        · rw [← hindex j hlt]
          exact h3 j hlt hjc
      · exact hclear.append h4 (by omega) h1
      · obtain ⟨h7, h8, h9⟩ := h6 he
        exact ⟨by omega, h8, h9⟩
    · rw [hunlink]
      refine ⟨idx, le_rfl, by omega, fun j _ _ => by omega, hsame.clears le_rfl, nofun, fun he => ?_⟩
      exact ⟨by omega, hused, hempty (Option.some.inj he)⟩

/-- **What `cleanup` does to the index.** -/
theorem cleanupLoop_index (cfg : TableConfig) (v : View α) (opens : Bytes → OpenResult) :
    ∃ c, CleansUp cfg v (cleanupLoop cfg opens cfg.tableMaxPages 0 v).2
        (cleanupLoop cfg opens cfg.tableMaxPages 0 v).1.isSome c ∧
      ((cleanupLoop cfg opens cfg.tableMaxPages 0 v).1 = some .emptyPageName →
        c < cfg.tableMaxPages ∧ 0 < (v.shared.index c).expireAt ∧ (v.shared.index c).pageName = []) := by
  obtain ⟨c, -, hc, hused, hclears, hstop, hempty⟩ := cleanupLoop_cases cfg opens cfg.tableMaxPages 0 v
  rw [Nat.zero_add] at hc hstop hempty
  refine ⟨c, ⟨hc, fun j hj => hused j (by omega) hj, fun hn => hstop ?_, hclears⟩, hempty⟩
  simpa using hn

/-! ## Steps of the system -/

/-- What one step of a process can do to the table as the process sees it. -/
inductive Shifts (cfg : TableConfig) (v : View α) (a : Action α) : Pc α → View α → Prop
  | stays (pc : Pc α) : Shifts cfg v a pc v
  | released (op : Op α) (hdue : v.checkDue a.now = true) :
      Shifts cfg v a (.release op) (v.releaseLocked cfg a.now a.opens).2
  | dropped (op : Op α) : Shifts cfg v a (.drop op) v.dropUnlinked
  | reserved (records : List α) (lifetime : ℕ) :
      Shifts cfg v a (.locked (.addRecord records lifetime)) (v.reserve cfg a.now a.memLow records.length lifetime).2
  | cleaned : Shifts cfg v a (.locked .cleanup) (cleanupLoop cfg a.opens cfg.tableMaxPages 0 v).2
  | mapped (pc : Pc α) (name : Bytes) : Shifts cfg v a pc (v.getPageByName name (a.opens name)).2
  | copied (o : ℕ) (r : Reservation) (records : List α) :
      Shifts cfg v a (.copy o r records) { v with shared := v.shared.copy o r.start records }
  | closed : Shifts cfg v a .closePages v.releaseOpenPages

/-- **What a step of a process does to the table.** -/
theorem processStep_shifts (cfg : TableConfig) (v : View α) (pc : Pc α) (op : Op α) (a : Action α) :
    Shifts cfg v a pc (processStep cfg v pc op a).2.2 := by
  -- mapping a page ends as `getPageByName` does, whether it fails or not
  have hmapped (pc : Pc α) (name : Bytes) (w : View α) (h : (v.getPageByName name (a.opens name)).2 = w) :
      Shifts cfg v a pc w := h ▸ .mapped pc name
  cases pc with
  | idle => exact .stays _
  | release op' =>
    unfold processStep
    dsimp only
    by_cases hdue : v.checkDue a.now = true
    · have hreleased : Shifts cfg v a (.release op') (v.releaseLocked cfg a.now a.opens).2 := .released op' hdue
      rw [if_pos hdue]
      rcases hrel : v.releaseLocked cfg a.now a.opens with ⟨_ | err, w⟩ <;> rw [hrel] at hreleased <;> exact hreleased
    · rw [if_neg hdue]
      exact .stays _
  | drop op' => exact .dropped op'
  | locked op' =>
    unfold processStep lockedStep
    cases op' with
    | addRecord records lifetime =>
      have hreserved : Shifts cfg v a (.locked (.addRecord records lifetime))
          (v.reserve cfg a.now a.memLow records.length lifetime).2 := .reserved records lifetime
      dsimp only
      rcases hres : v.reserve cfg a.now a.memLow records.length lifetime with ⟨err | r, w⟩ <;>
        rw [hres] at hreserved <;> exact hreserved
    | processRecords => exact .stays _
    | cleanup =>
      have hcleaned : Shifts cfg v a (.locked .cleanup) (cleanupLoop cfg a.opens cfg.tableMaxPages 0 v).2 := .cleaned
      dsimp only
      rcases hloop : cleanupLoop cfg a.opens cfg.tableMaxPages 0 v with ⟨_ | err, w⟩ <;> rw [hloop] at hcleaned <;>
        exact hcleaned
    | getElementData place => exact .stays _
  | openPage r records =>
    unfold processStep
    dsimp only
    rcases hget : v.getPageByName (cfg.pageName r.idx) (a.opens (cfg.pageName r.idx)) with ⟨err | o, w⟩ <;>
      exact hmapped _ (cfg.pageName r.idx) w (by rw [hget])
  | copy o r records => exact .copied o r records
  | scan todo =>
    cases todo with
    | nil => exact .stays _
    | cons idx todo =>
      unfold processStep
      dsimp only
      rcases hget : v.getPageByName (v.shared.index idx).pageName (a.opens (v.shared.index idx).pageName) with
        ⟨err | o, w⟩ <;> exact hmapped _ (v.shared.index idx).pageName w (by rw [hget])
  | scanPage name o idx todo => exact .stays _
  | closePages => exact .closed
  | openElement place =>
    unfold processStep
    dsimp only
    rcases hget : v.getPageByName place.pageName (a.opens place.pageName) with ⟨err | o, w⟩ <;>
      exact hmapped _ place.pageName w (by rw [hget])
  | readElement o place => exact .stays _

/-- **Which steps touch the index**: the locked sections that release, reserve and clean up. -/
theorem processStep_cases (cfg : TableConfig) (v : View α) (pc : Pc α) (op : Op α) (a : Action α) :
    SameIndex v (processStep cfg v pc op a).2.2 ∨
    (∃ op', pc = .release op' ∧ v.checkDue a.now = true ∧
      (processStep cfg v pc op a).2.2 = (v.releaseLocked cfg a.now a.opens).2) ∨
    (∃ records lifetime, pc = .locked (.addRecord records lifetime) ∧
      (processStep cfg v pc op a).2.2 = (v.reserve cfg a.now a.memLow records.length lifetime).2) ∨
    (pc = .locked .cleanup ∧
      (processStep cfg v pc op a).2.2 = (cleanupLoop cfg a.opens cfg.tableMaxPages 0 v).2) := by
  have hshifts := processStep_shifts cfg v pc op a
  generalize (processStep cfg v pc op a).2.2 = w at hshifts ⊢
  cases hshifts with
  | stays => exact .inl (SameIndex.refl v)
  | released op' hdue => exact .inr (.inl ⟨op', rfl, hdue, rfl⟩)
  | dropped op' => exact .inl ⟨rfl, rfl, rfl⟩
  | reserved records lifetime => exact .inr (.inr (.inl ⟨records, lifetime, rfl, rfl⟩))
  | cleaned => exact .inr (.inr (.inr ⟨rfl, rfl⟩))
  | mapped _ name => exact .inl (getPageByName_same v name (a.opens name))
  | copied o r records => exact .inl ⟨rfl, rfl, rfl⟩
  | closed => exact .inl ⟨rfl, rfl, rfl⟩

/-- What a step does to index and `global_expire_at`: nothing, or what a locked section of a process does, or
another table raises `global_expire_at`. -/
theorem step_cases (cfg : TableConfig) (s : Processes α) (a : Action α) :
    ((s.step cfg a).shared.index = s.shared.index ∧ s.globalExpireAt ≤ (s.step cfg a).globalExpireAt) ∨
    ∃ pid op, a.actor = .process pid op ∧
      ((∃ op', (s.processes pid).pc = .release op' ∧ (s.view pid).checkDue a.now = true ∧
          (s.step cfg a).shared = ((s.view pid).releaseLocked cfg a.now a.opens).2.shared ∧
          (s.step cfg a).globalExpireAt = ((s.view pid).releaseLocked cfg a.now a.opens).2.globalExpireAt) ∨
        (∃ records lifetime, (s.processes pid).pc = .locked (.addRecord records lifetime) ∧
          (s.step cfg a).shared = ((s.view pid).reserve cfg a.now a.memLow records.length lifetime).2.shared ∧
          (s.step cfg a).globalExpireAt =
            ((s.view pid).reserve cfg a.now a.memLow records.length lifetime).2.globalExpireAt) ∨
        ((s.processes pid).pc = .locked .cleanup ∧
          (s.step cfg a).shared = (cleanupLoop cfg a.opens cfg.tableMaxPages 0 (s.view pid)).2.shared ∧
          (s.step cfg a).globalExpireAt =
            (cleanupLoop cfg a.opens cfg.tableMaxPages 0 (s.view pid)).2.globalExpireAt)) := by
  unfold Processes.step Processes.exec
  rcases hactor : a.actor with ⟨pid, op⟩ | value
  · dsimp only
    -- only the three locked sections write the index
    obtain hsame | ⟨op', hpc, hdue, h⟩ | ⟨records, lifetime, hpc, h⟩ | ⟨hpc, h⟩ :=
      processStep_cases cfg (s.view pid) (s.processes pid).pc op a
    · exact .inl ⟨hsame.index_eq, hsame.global_eq.ge⟩
    · refine .inr ⟨pid, op, rfl, .inl ⟨op', hpc, hdue, ?_⟩⟩
      rw [← h]
      exact ⟨rfl, rfl⟩
    · refine .inr ⟨pid, op, rfl, .inr (.inl ⟨records, lifetime, hpc, ?_⟩)⟩
      rw [← h]
      exact ⟨rfl, rfl⟩
    · refine .inr ⟨pid, op, rfl, .inr (.inr ⟨hpc, ?_⟩)⟩
      rw [← h]
      exact ⟨rfl, rfl⟩
  · exact .inl ⟨rfl, le_max_left ..⟩

/-- `global_expire_at` is only raised. -/
theorem globalExpireAt_mono (s : Processes α) (a : Action α) :
    s.globalExpireAt ≤ (s.step cfg a).globalExpireAt := by
  obtain ⟨-, hle⟩ | ⟨pid, op, hactor, hcase⟩ := step_cases cfg s a
  · exact hle
  · obtain ⟨op', -, -, -, hg⟩ | ⟨records, lifetime, -, -, hg⟩ | ⟨-, -, hg⟩ := hcase
    · obtain ⟨b, e, h, -⟩ := releaseLocked_index cfg (s.view pid) a.now a.opens
      rw [hg, h.clears.global_eq]
      exact le_rfl
    · rw [hg]
      exact reserve_global (s.view pid) a.now records.length lifetime a.memLow
    · obtain ⟨c, h, -⟩ := cleanupLoop_index cfg (s.view pid) a.opens
      rw [hg, h.clears.global_eq]
      exact le_rfl

/-- **A property of the index under a step**: it is kept when releases, reservations and cleanups keep it. -/
theorem index_step {s : Processes α} {a : Action α} {P : (ℕ → TablePageIndexElement) → Prop}
    (hb : Bounded cfg s.shared.index) (hP : P s.shared.index)
    (hrelease : ∀ pid v' b e, Releases cfg (s.view pid) v' a.now b e → (s.step cfg a).shared = v'.shared →
      P v'.shared.index)
    (hreserve : ∀ pid op records lifetime r v', a.actor = .process pid op →
      (s.processes pid).pc = .locked (.addRecord records lifetime) →
      (s.view pid).reserve cfg a.now a.memLow records.length lifetime = (.ok r, v') →
      Reserves cfg (s.view pid) v' a.now a.memLow records.length lifetime r → P v'.shared.index)
    (hcleanup : ∀ pid op v' c, a.actor = .process pid op → (s.processes pid).pc = .locked .cleanup →
      CleansUp cfg (s.view pid) v' (s.exec cfg a).1.isSome c → (s.step cfg a).shared = v'.shared →
      P v'.shared.index) :
    P (s.step cfg a).shared.index := by
  obtain ⟨hindex, -⟩ | ⟨pid, op, hactor, hcase⟩ := step_cases cfg s a
  · rw [hindex]
    exact hP
  · obtain ⟨op', -, -, hsh, -⟩ | ⟨records, lifetime, hpc, hsh, -⟩ | ⟨hpc, hsh, -⟩ := hcase
    · obtain ⟨b, e, h, -⟩ := releaseLocked_index cfg (s.view pid) a.now a.opens
      have hkept := hrelease pid _ b e h hsh
      rwa [hsh]
    · -- a reservation that fails writes nothing
      obtain ⟨err, hres, -⟩ | ⟨r, v', hres, h⟩ :=
        reserve_cases (s.view pid) hb a.now records.length lifetime a.memLow
      · rw [hsh, hres]
        exact hP
      · rw [hsh, hres]
        exact hreserve pid op records lifetime r v' hactor hpc hres h
    · obtain ⟨c, h, -⟩ := cleanupLoop_index cfg (s.view pid) a.opens
      have herr : (s.exec cfg a).1 = (cleanupLoop cfg a.opens cfg.tableMaxPages 0 (s.view pid)).1 := by
        simp only [Processes.exec, hactor, hpc, processStep, lockedStep]
        rcases cleanupLoop cfg a.opens cfg.tableMaxPages 0 (s.view pid) with ⟨_ | err, w⟩ <;> rfl
      rw [← herr] at h
      have hkept := hcleanup pid op _ c hactor hpc h hsh
      rwa [hsh]

end Pages

end DealsServer
