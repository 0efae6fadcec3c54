import DealsServer.Proof.Failures
import DealsServer.Proof.ReadYourWrites

/-!
# Tables of one process

A table whose only process maps every page it asks for: a name stands for the page of its entry as long as the entry
is used (`Alone`), so records stay where they were copied until their entry is reset.

* `Alone.release`: the maintenance does not fail, and keeps the entries that are needed with their pages.
* `Alone.addRecord`: what an `addRecord` leaves, and where its records are.
-/

namespace DealsServer

variable {α : Type} {cfg : TableConfig}

/-! ## The state between operations -/

/-- What a table keeps whose only process maps every page it asks for. A page that is open and not under its name any
more is marked as unlinked. -/
structure Alone (cfg : TableConfig) (v : View α) : Prop where
  sound : Sound v.shared
  bounded : Bounded cfg v.shared.index
  names : NamesFormed cfg v.shared.index
  early : ∀ j, (v.shared.index j).expireAt + removeExpiredPagesDelaySec < 2 ^ 32
  range : ∀ j, 0 < (v.shared.index j).expireAt → j < cfg.tableMaxPages
  named : ∀ j, 0 < j → 0 < (v.shared.index j).expireAt → (v.shared.index j).pageName = cfg.pageName j
  paged : ∀ j, 0 < (v.shared.index j).expireAt → ∃ o, v.shared.names (cfg.pageName j) = some o
  unnamed : v.shared.names [] = none
  live : ∀ name o, v.shared.names name = some o →
    (v.shared.objects o).sized = true ∧ (v.shared.objects o).unlinked = false
  opened : ∀ page ∈ v.own.openedPagesList, v.shared.names page.1 = some page.2 ∨
    v.shared.names page.1 = none ∧ (v.shared.objects page.2).unlinked = true

/-- All open pages are under their names. -/
def Current (v : View α) : Prop := ∀ page ∈ v.own.openedPagesList, v.shared.names page.1 = some page.2

/-- The used entries are some of those that were used, with their pages. -/
structure Leaves (cfg : TableConfig) (v v' : View α) : Prop where
  index : ∀ j, 0 < (v'.shared.index j).expireAt → v'.shared.index j = v.shared.index j
  page : ∀ j o, 0 < (v'.shared.index j).expireAt → v.shared.names (cfg.pageName j) = some o →
    v'.shared.names (cfg.pageName j) = some o ∧ (v'.shared.objects o).elements = (v.shared.objects o).elements
  global : v'.globalExpireAt = v.globalExpireAt

variable {v v' v'' : View α}

theorem Leaves.refl (cfg : TableConfig) (v : View α) : Leaves cfg v v :=
  ⟨fun _ _ => rfl, fun _ _ _ h => ⟨h, rfl⟩, rfl⟩

theorem Leaves.trans (h : Leaves cfg v v') (h' : Leaves cfg v' v'') : Leaves cfg v v'' := by
  have hused (j : ℕ) (hj : 0 < (v''.shared.index j).expireAt) : 0 < (v'.shared.index j).expireAt := by
    rwa [← h'.index j hj]
  refine ⟨fun j hj => ?_, fun j o hj hn => ?_, h'.global.trans h.global⟩
  · rw [h'.index j hj, h.index j (hused j hj)]
  · obtain ⟨hname, helements⟩ := h.page j o (hused j hj) hn
    obtain ⟨hname', helements'⟩ := h'.page j o hj hname
    exact ⟨hname', helements'.trans helements⟩

/-- The page is under its name, or it is marked as unlinked and its name stands for nothing. -/
def Fits (v : View α) (page : Bytes × ℕ) : Prop :=
  v.shared.names page.1 = some page.2 ∨ v.shared.names page.1 = none ∧ (v.shared.objects page.2).unlinked = true

/-- What the maintenance leaves of a table and of the pages that are open, in this process and in others. -/
structure Sheds (cfg : TableConfig) (v v' : View α) : Prop where
  alone : Alone cfg v'
  leaves : Leaves cfg v v'
  fits : ∀ page, Fits v page → Fits v' page
  nonempty : (∀ page ∈ v.own.openedPagesList, page.1 ≠ []) → ∀ page ∈ v'.own.openedPagesList, page.1 ≠ []

theorem Sheds.refl (h : Alone cfg v) : Sheds cfg v v := ⟨h, Leaves.refl cfg v, fun _ => id, id⟩

theorem Sheds.trans (h : Sheds cfg v v') (h' : Sheds cfg v' v'') : Sheds cfg v v'' :=
  ⟨h'.alone, h.leaves.trans h'.leaves, fun page hpage => h'.fits page (h.fits page hpage),
    fun hpages => h'.nonempty (h.nonempty hpages)⟩

/-- Timers, open pages and `global_expire_at` do not matter. -/
theorem Alone.of_shared (h : Alone cfg v) (hindex : v'.shared.index = v.shared.index)
    (hnames : v'.shared.names = v.shared.names) (hobjects : v'.shared.objects = v.shared.objects)
    (hnext : v'.shared.nextObject = v.shared.nextObject)
    (hopened : ∀ page ∈ v'.own.openedPagesList, page ∈ v.own.openedPagesList ∨
      v.shared.names page.1 = some page.2) : Alone cfg v' := by
  obtain ⟨⟨hallocated, hinjective⟩, hbounded, hformed, hearly, hrange, hnamed, hpaged, hunnamed, hlive, hold⟩ := h
  refine ⟨⟨?_, ?_⟩, ?_, ?_, ?_, ?_, ?_, ?_, ?_, ?_, fun page hpage => ?_⟩
  · rwa [hnames, hnext]
  · rwa [hnames]
  · rwa [hindex]
  · rwa [hindex]
  · rwa [hindex]
  · rwa [hindex]
  · rwa [hindex]
  · rwa [hindex, hnames]
  · rwa [hnames]
  · rwa [hnames, hobjects]
  · rw [hnames, hobjects]
    rcases hopened page hpage with hin | hcurrent
    · exact hold page hin
    · exact .inl hcurrent

/-- What is open under a name that stands for an object is that object. -/
theorem Alone.local_eq (h : Alone cfg v) {name : Bytes} {o o' : ℕ} (hn : v.shared.names name = some o)
    (hlocal : v.own.localGetPageByName name = some o') : o' = o := by
  rcases h.opened _ (mem_of_local hlocal) with hcurrent | ⟨hnone, -⟩
  · rw [hn] at hcurrent
    exact (Option.some.inj hcurrent).symm
  · rw [hn] at hnone
    cases hnone

/-! ## Reserved slots -/

/-- What an `addRecord` that has reserved the slots `r` leaves: its records are in the page of the entry, behind those
that were there, and the other pages are as they were. -/
structure Placed (cfg : TableConfig) (v v' : View α) (now : ℕ) (memLow : Bool) (records : List α) (lifetime : ℕ)
    (r : Reservation) : Prop where
  reserves : ∃ w, Reserves cfg v w now memLow records.length lifetime r ∧ v'.shared.index = w.shared.index ∧
    v'.globalExpireAt = w.globalExpireAt
  page : ∃ o, v'.shared.names (cfg.pageName r.idx) = some o ∧
    (∀ i, ∀ hi : i < records.length, (v'.shared.objects o).elements (r.start + i) = records[i]) ∧
    ∀ o', v.shared.names (cfg.pageName r.idx) = some o' →
      o' = o ∧ ∀ i < r.start, (v'.shared.objects o).elements i = (v.shared.objects o).elements i
  others : ∀ j o, j ≠ r.idx → v.shared.names (cfg.pageName j) = some o →
    v'.shared.names (cfg.pageName j) = some o ∧ (v'.shared.objects o).elements = (v.shared.objects o).elements

/-- A reserved entry behind the first has the name of its page. -/
theorem Reserves.named {w : View α} {now count lifetime : ℕ} {memLow : Bool} {r : Reservation}
    (hr : Reserves cfg v w now memLow count lifetime r) (hformed : NamesFormed cfg v.shared.index) (hpos : 0 < r.idx)
    (hnamed : 0 < (v.shared.index r.idx).expireAt → (v.shared.index r.idx).pageName = cfg.pageName r.idx) :
    (w.shared.index r.idx).pageName = cfg.pageName r.idx := by
  rcases hr.outcome with hcont | hrest
  · rw [hcont.pageName_eq]
    exact hnamed hcont.used
  · obtain ⟨-, hused, -, hname, -⟩ | ⟨-, -, -, -, hname, -⟩ | ⟨-, -, hused | ⟨hzero, -⟩, hname, -⟩ := hrest.kind
    · rw [hname]
      exact hnamed hused
    · rw [hname]
      exact copyName_formed (hformed _)
    · rw [hname]
      exact hnamed hused
    · omega

theorem Reserves.early {w : View α} {now count lifetime : ℕ} {memLow : Bool} {r : Reservation}
    (hr : Reserves cfg v w now memLow count lifetime r)
    (hearly : now + cfg.lifetime lifetime + removeExpiredPagesDelaySec < 2 ^ 32) {j : ℕ}
    (hold : (v.shared.index j).expireAt + removeExpiredPagesDelaySec < 2 ^ 32) :
    (w.shared.index j).expireAt + removeExpiredPagesDelaySec < 2 ^ 32 := by
  have hexpire : cfg.expireTime now lifetime ≤ now + cfg.lifetime lifetime := Nat.mod_le _ _
  by_cases hj : j = r.idx
  · rw [hj] at hold ⊢
    rcases hr.outcome with hcont | hrest
    · rw [hcont.expireAt_eq]
      omega
    · rw [hrest.expireAt_eq]
      omega
  · rw [hr.others j hj]
    exact hold

/-- The elements are all that a copy changes in an object. -/
theorem copy_flags (sh : SharedMemory α) (o o' start : ℕ) (records : List α) :
    ((sh.copy o start records).objects o').sized = (sh.objects o').sized ∧
      ((sh.copy o start records).objects o').unlinked = (sh.objects o').unlinked := by
  unfold SharedMemory.copy
  dsimp only
  by_cases heq : o' = o
  · rw [heq, Function.update_self]
    exact ⟨rfl, rfl⟩
  · rw [Function.update_of_ne heq]
    exact ⟨rfl, rfl⟩

section Operations

variable [Inhabited α]

theorem alone_init : Alone cfg (⟨.init, 0, .init⟩ : View α) where
  sound := ⟨nofun, nofun⟩
  bounded _ _ h := absurd h (lt_irrefl 0)
  names _ := .inl rfl
  early _ := delay_lt
  range _ h := absurd h (lt_irrefl 0)
  named _ _ h := absurd h (lt_irrefl 0)
  paged _ h := absurd h (lt_irrefl 0)
  unnamed := rfl
  live := nofun
  opened := nofun

/-! ## Mapping pages -/

/-- A page that exists is mapped as the object its name stands for, or the attempt fails and changes nothing. -/
theorem getPageByName_live {name : Bytes} {o : ℕ} (hn : v.shared.names name = some o)
    (hsized : (v.shared.objects o).sized = true)
    (hlocal : ∀ o', v.own.localGetPageByName name = some o' → o' = o) (hne : name ≠ [])
    (hshort : name.length ≤ mempageNameMaxLen - 6) (res : OpenResult) :
    (∃ own, v.getPageByName name res = (.ok o, { v with own := own }) ∧
      ∀ page ∈ own.openedPagesList, page ∈ v.own.openedPagesList ∨ page = (name, o)) ∨
    (∃ err, v.getPageByName name res = (.error err, v)) ∧ res ≠ .mapped := by
  obtain ⟨o', hown, hget⟩ | ⟨-, ⟨o', sh, hget, hopen⟩ | ⟨err, sh, hget, hfail⟩⟩ := getPageByName_cases v name res
  · rw [hlocal o' hown] at hget
    exact .inl ⟨v.own, hget, fun page hpage => .inl hpage⟩
  · rcases hopen with ⟨hn', -, rfl⟩ | ⟨hnone, -⟩
    · rw [hn] at hn'
      cases hn'
      refine .inl ⟨_, hget, fun page hpage => ?_⟩
      rcases List.mem_append.1 hpage with hold | hnew
      · exact .inl hold
      · exact .inr (List.mem_singleton.1 hnew)
    · rw [hn] at hnone
      cases hnone
  · right
    rcases hfail.effect with rfl | ⟨-, hnone, -⟩ | ⟨o', hn', hunsized, -⟩
    · refine ⟨⟨err, hget⟩, ?_⟩
      rintro rfl
      have hmaps : Maps v name .mapped := by
        right
        rw [hn]
        exact ⟨hne, hshort, by decide, by decide, by decide, by decide, hsized⟩
      obtain ⟨o', ho'⟩ := (maps_iff v name .mapped).1 hmaps
      rw [hget] at ho'
      cases ho'
    · rw [hn] at hnone
      cases hnone
    · rw [hn] at hn'
      cases hn'
      rw [hsized] at hunsized
      cases hunsized

/-- The page of a name is mapped as the object that the name stands for. -/
theorem getPageByName_named {name : Bytes} {o : ℕ} (hn : v.shared.names name = some o)
    (hsized : (v.shared.objects o).sized = true)
    (hlocal : ∀ o', v.own.localGetPageByName name = some o' → o' = o) (hne : name ≠ [])
    (hshort : name.length ≤ mempageNameMaxLen - 6) :
    ∃ own, v.getPageByName name .mapped = (.ok o, { v with own := own }) ∧
      ∀ page ∈ own.openedPagesList, page ∈ v.own.openedPagesList ∨ page = (name, o) :=
  (getPageByName_live hn hsized hlocal hne hshort .mapped).resolve_right fun hfail => hfail.2 rfl

/-- An entry without a name has no page. -/
theorem Alone.getPageByName_nil (h : Alone cfg v) (hcur : Current v) (res : OpenResult) :
    v.getPageByName [] res = (.error .emptyPageName, v) := by
  unfold View.getPageByName
  rcases hlocal : v.own.localGetPageByName [] with _ | o
  · rfl
  · have hopen := hcur _ (mem_of_local hlocal)
    rw [h.unnamed] at hopen
    cases hopen

/-- A name that stands for no object gets a new one. -/
theorem getPageByName_new {name : Bytes} (hn : v.shared.names name = none)
    (hlocal : v.own.localGetPageByName name = none) (hne : name ≠ [])
    (hshort : name.length ≤ mempageNameMaxLen - 6) :
    v.getPageByName name .mapped = (.ok v.shared.nextObject, { v with
      shared := v.shared.create name true
      own := { v.own with openedPagesList := v.own.openedPagesList ++ [(name, v.shared.nextObject)] } }) := by
  have hopen : v.shared.openPage name .mapped = (.ok v.shared.nextObject, v.shared.create name true) := by
    unfold SharedMemory.openPage
    rw [if_neg hne, if_neg (not_lt.2 hshort), hn]
    simp
  unfold View.getPageByName
  rw [hlocal]
  dsimp only
  rw [hopen]

/-! ## The maintenance -/

/-- The names of the pages of the table fit the limit. -/
def ShortNames (cfg : TableConfig) : Prop := ∀ j < cfg.tableMaxPages, (cfg.pageName j).length ≤ mempageNameMaxLen - 6

/-- The page of a used entry is mapped, and the process has it open. -/
theorem Alone.getPageByName_used (h : Alone cfg v) (hcur : Current v) (hshort : ShortNames cfg) {idx : ℕ}
    (hused : 0 < (v.shared.index idx).expireAt) :
    ∃ o own, v.shared.names (cfg.pageName idx) = some o ∧
      v.getPageByName (cfg.pageName idx) .mapped = (.ok o, { v with own := own }) ∧
      Alone cfg ({ v with own := own } : View α) ∧ Current ({ v with own := own } : View α) := by
  obtain ⟨o, hn⟩ := h.paged idx hused
  obtain ⟨own, hget, hopened⟩ := getPageByName_named hn (h.live _ o hn).1 (fun o' => h.local_eq hn)
    (pageName_ne_nil idx) (hshort idx (h.range idx hused))
  have hcur₁ : Current ({ v with own := own } : View α) := by
    intro page hpage
    rcases hopened page hpage with hold | rfl
    · exact hcur page hold
    · exact hn
  exact ⟨o, own, hn, hget, h.of_shared rfl rfl rfl rfl fun page hpage => .inr (hcur₁ page hpage), hcur₁⟩

/-- Unlinking a used entry with a name removes its page and leaves all others, or it fails and changes nothing. -/
theorem Alone.unlinkEntry (h : Alone cfg v) (hshort : ShortNames cfg) {idx : ℕ}
    (hname : (v.shared.index idx).pageName = cfg.pageName idx) (hused : 0 < (v.shared.index idx).expireAt)
    (opens : Bytes → OpenResult) :
    (∃ v', v.unlinkEntry cfg idx opens = (none, v') ∧ Sheds cfg v v') ∨
    (∃ err, v.unlinkEntry cfg idx opens = (some err, v)) ∧ ¬ ∀ name, opens name = .mapped := by
  obtain ⟨o, hn⟩ := h.paged idx hused
  obtain ⟨own, hget, hopened⟩ | ⟨⟨err, hget⟩, hres⟩ := getPageByName_live hn (h.live _ o hn).1 (fun o' => h.local_eq hn)
    (pageName_ne_nil idx) (hshort idx (h.range idx hused)) (opens (cfg.pageName idx))
  swap
  · refine .inr ⟨⟨err, ?_⟩, fun hopens => hres (hopens _)⟩
    unfold View.unlinkEntry
    rw [hname]
    dsimp only
    rw [hget]
  left
  have hunlink : v.unlinkEntry cfg idx opens = (none, { v with
      own := own
      shared := ((v.shared.markUnlinked o).unlink (cfg.pageName idx)).setEntry idx (.clearFull cfg) }) := by
    unfold View.unlinkEntry
    rw [hname]
    dsimp only
    rw [hget]
  obtain ⟨v', heq, hclear⟩ | ⟨err, v', heq, -, -⟩ := unlinkEntry_cases cfg v idx opens
  swap
  · rw [hunlink] at heq
    cases heq
  have hnames (name : Bytes) : v'.shared.names name =
      if name = cfg.pageName idx then none else v.shared.names name := by
    cases hunlink.symm.trans heq
    exact Function.update_apply ..
  have hobjects (o' : ℕ) : v'.shared.objects o' =
      if o' = o then { v.shared.objects o with unlinked := true } else v.shared.objects o' := by
    cases hunlink.symm.trans heq
    exact Function.update_apply ..
  have hown : v'.own.openedPagesList = own.openedPagesList ∧ v'.shared.nextObject = v.shared.nextObject := by
    cases hunlink.symm.trans heq
    exact ⟨rfl, rfl⟩
  have hkept (name : Bytes) (o' : ℕ) (hn' : v'.shared.names name = some o') :
      name ≠ cfg.pageName idx ∧ v.shared.names name = some o' := by
    rw [hnames] at hn'
    split_ifs at hn' with heq
    exact ⟨heq, hn'⟩
  -- what another name stands for is another object
  have hother (name : Bytes) (o' : ℕ) (hne : name ≠ cfg.pageName idx) (hn' : v.shared.names name = some o') :
      v'.shared.objects o' = v.shared.objects o' := by
    rw [hobjects, if_neg]
    rintro rfl
    exact hne (h.sound.injective _ _ _ hn' hn)
  have hstill (j : ℕ) (hj : 0 < (v'.shared.index j).expireAt) :
      j ≠ idx ∧ v'.shared.index j = v.shared.index j := by
    refine ⟨?_, hclear.same hj⟩
    rintro rfl
    rw [hclear.index_eq, if_pos (by omega)] at hj
    exact absurd hj (lt_irrefl 0)
  have hpage (j o' : ℕ) (hj : 0 < (v'.shared.index j).expireAt)
      (hn' : v.shared.names (cfg.pageName j) = some o') : v'.shared.names (cfg.pageName j) = some o' := by
    rw [hnames, if_neg fun heq => (hstill j hj).1 (pageName_injective heq)]
    exact hn'
  have hfits (page : Bytes × ℕ) (hpage : Fits v page) : Fits v' page := by
    unfold Fits
    rw [hnames, hobjects]
    by_cases hsame : page.1 = cfg.pageName idx
    · -- the page that was removed is marked
      rw [if_pos hsame]
      refine .inr ⟨rfl, ?_⟩
      split_ifs with ho
      · rfl
      · rw [Fits, hsame, hn] at hpage
        rcases hpage with hcurrent | ⟨hnone, -⟩
        · exact absurd (Option.some.inj hcurrent).symm ho
        · cases hnone
    · rw [if_neg hsame]
      refine hpage.imp_right fun ⟨hnone, hmarked⟩ => ⟨hnone, ?_⟩
      split_ifs
      · rfl
      · exact hmarked
  refine ⟨v', heq, ⟨⟨fun name o' hn' => ?_, fun name name' o' hn' hn'' => ?_⟩, hclear.bounded h.bounded,
    hclear.namesFormed h.names, fun j => ?_, fun j hj => ?_, fun j hj0 hj => ?_, fun j hj => ?_, ?_,
    fun name o' hn' => ?_, fun page hpage => hfits page ?_⟩,
    ⟨fun j hj => (hstill j hj).2, fun j o' hj hn' => ⟨hpage j o' hj hn', ?_⟩, hclear.global_eq⟩, hfits,
    fun hnonempty page hpage => ?_⟩
  · rw [hown.2]
    exact h.sound.allocated name o' (hkept name o' hn').2
  · exact h.sound.injective name name' o' (hkept name o' hn').2 (hkept name' o' hn'').2
  · rw [hclear.index_eq]
    split_ifs
    · exact delay_lt
    · exact h.early j
  · rw [(hstill j hj).2] at hj
    exact h.range j hj
  · have hsame := (hstill j hj).2
    rw [hsame] at hj ⊢
    exact h.named j hj0 hj
  · obtain ⟨o', hn'⟩ := h.paged j ((hstill j hj).2 ▸ hj)
    exact ⟨o', hpage j o' hj hn'⟩
  · rw [hnames, if_neg (pageName_ne_nil idx).symm]
    exact h.unnamed
  · obtain ⟨hne, hold⟩ := hkept name o' hn'
    rw [hother name o' hne hold]
    exact h.live name o' hold
  · rw [hown.1] at hpage
    rcases hopened page hpage with hold | rfl
    · exact h.opened page hold
    · exact .inl hn
  · rw [hother _ o' (fun heq => (hstill j hj).1 (pageName_injective heq)) hn']
  · rw [hown.1] at hpage
    rcases hopened page hpage with hold | rfl
    · exact hnonempty page hold
    · exact pageName_ne_nil idx

/-- The loop of `release_expired_memory_pages` fails only where a page cannot be opened. -/
theorem Alone.releaseLoop (hshort : ShortNames cfg) (opens : Bytes → OpenResult)
    (last n idx : ℕ) (h : Alone cfg v) (hused : ∀ j, last < j → j ≤ idx → 0 < (v.shared.index j).expireAt) :
    ∃ res v', releaseLoop cfg opens last n idx v = (res, v') ∧ Sheds cfg v v' ∧
      ((∀ name, opens name = .mapped) → res = none) := by
  induction n generalizing idx v with
  | zero => exact ⟨_, v, rfl, Sheds.refl h, fun _ => rfl⟩
  | succ n ih =>
    unfold DealsServer.releaseLoop
    by_cases hlast : last < idx
    swap
    · exact ⟨_, v, if_neg hlast, Sheds.refl h, fun _ => rfl⟩
    rw [if_pos hlast]
    have husedIdx := hused idx hlast le_rfl
    obtain ⟨v₁, hunlink, hsheds⟩ | ⟨⟨err, hunlink⟩, hopens⟩ :=
      h.unlinkEntry hshort (h.named idx (by omega) husedIdx) husedIdx opens
    swap
    · rw [hunlink]
      exact ⟨_, v, rfl, Sheds.refl h, fun hmapped => absurd hmapped hopens⟩
    obtain ⟨v₁', heq, hclear⟩ | ⟨err, v₁', heq, -, -⟩ := unlinkEntry_cases cfg v idx opens
    swap
    · rw [hunlink] at heq
      cases heq
    cases hunlink.symm.trans heq
    rw [hunlink]
    obtain ⟨res, v₂, hloop, hsheds', hnone⟩ := ih (idx - 1) hsheds.alone fun j hj hji => by
      rw [hclear.index_eq, if_neg (by omega)]
      exact hused j hj (by omega)
    exact ⟨res, v₂, hloop, hsheds.trans hsheds', hnone⟩

/-- The locked section of the maintenance fails only where a page cannot be opened. -/
theorem Alone.releaseLocked (h : Alone cfg v) (hshort : ShortNames cfg) (now : ℕ) (opens : Bytes → OpenResult) :
    ∃ res v', v.releaseLocked cfg now opens = (res, v') ∧ Sheds cfg v v' ∧
      ((∀ name, opens name = .mapped) → res = none) := by
  unfold View.releaseLocked
  dsimp only
  by_cases hdue : v.shared.expirationCheck ≤ now
  swap
  · rw [if_neg hdue]
    exact ⟨_, _, rfl, ⟨h.of_shared rfl rfl rfl rfl fun page hp => .inl hp,
      ⟨fun _ _ => rfl, fun _ _ _ hn => ⟨hn, rfl⟩, rfl⟩, fun _ => id, id⟩, fun _ => rfl⟩
  rw [if_pos hdue]
  rcases hdata : lastData v.shared.index v.globalExpireAt now cfg.tableMaxPages 0 0 with ⟨e, l⟩
  obtain ⟨-, -, hused, -, -, -⟩ := lastData_cases _ _ _ _ _ _ le_rfl hdata
  dsimp only
  have htimers : Alone cfg (⟨{ v.shared with expirationCheck := (now + checkExpiredPagesIntervalSec) % 2 ^ 32 },
      v.globalExpireAt, { v.own with timeToCheckPageExpire := (now + checkExpiredPagesIntervalSec) % 2 ^ 32 }⟩ : View α) :=
    h.of_shared rfl rfl rfl rfl fun page hp => .inl hp
  by_cases hloop : e > 0 ∧ l < e - 1
  · rw [if_pos hloop]
    obtain ⟨res, v', hrelease, hsheds, hnone⟩ := htimers.releaseLoop hshort opens l removeExpiredPagesAtOnce (e - 1)
      fun j _ hj => hused j (Nat.zero_le j) (by omega)
    exact ⟨res, v', hrelease, ⟨hsheds.alone, ⟨hsheds.leaves.index, hsheds.leaves.page, hsheds.leaves.global⟩,
      hsheds.fits, hsheds.nonempty⟩, hnone⟩
  · rw [if_neg hloop]
    exact ⟨_, _, rfl, ⟨htimers, ⟨fun _ _ => rfl, fun _ _ _ hn => ⟨hn, rfl⟩, rfl⟩, fun _ => id, id⟩, fun _ => rfl⟩

/-- **A whole release** keeps every entry that is needed, with its page. -/
theorem Alone.release (h : Alone cfg v) (hcur : Current v) (hshort : ShortNames cfg) (c : Calls)
    (hopens : ∀ name, c.opens name = .mapped) :
    Alone cfg (v.releaseExpiredMemoryPages cfg c).2 ∧ Current (v.releaseExpiredMemoryPages cfg c).2 ∧
      Leaves cfg v (v.releaseExpiredMemoryPages cfg c).2 ∧
      ∀ j, Needed (v.shared.index j) v.globalExpireAt c.releaseNow →
        (v.releaseExpiredMemoryPages cfg c).2.shared.index j = v.shared.index j := by
  unfold View.releaseExpiredMemoryPages
  by_cases hdue : v.checkDue c.releaseNow = true
  swap
  · rw [if_neg hdue]
    exact ⟨h, hcur, Leaves.refl cfg v, fun _ _ => rfl⟩
  rw [if_pos hdue]
  by_cases hlock : c.releaseLock = true
  swap
  · rw [if_neg hlock]
    exact ⟨h.of_shared rfl rfl rfl rfl fun page hp => .inl hp, hcur,
      ⟨fun _ _ => rfl, fun _ _ _ hn => ⟨hn, rfl⟩, rfl⟩, fun _ _ => rfl⟩
  rw [if_pos hlock]
  obtain ⟨res, v', hlocked, ⟨h', hleaves, -, -⟩, hnone⟩ := h.releaseLocked hshort c.releaseNow c.opens
  obtain rfl := hnone hopens
  obtain ⟨b, e, hrel, -⟩ := releaseLocked_index cfg v c.releaseNow c.opens
  rw [hlocked] at hrel ⊢
  -- of the open pages only those without the mark are kept, so all that are left are current
  refine ⟨h'.of_shared rfl rfl rfl rfl fun page hp => .inl (List.mem_of_mem_filter hp), fun page hpage => ?_,
    ⟨hleaves.index, hleaves.page, hleaves.global⟩, fun j hj => ?_⟩
  · obtain ⟨hin, hmarked⟩ := List.mem_filter.1 hpage
    rcases h'.opened page hin with hcurrent | ⟨-, hunlinked⟩
    · exact hcurrent
    · rw [hunlinked] at hmarked
      cases hmarked
  · show v'.shared.index j = v.shared.index j
    -- a needed entry is not in the range that was cleared
    rw [hrel.clears.index_eq, if_neg]
    rintro ⟨hb, he⟩
    have hlow := hrel.needed j he hj
    omega


/-! ## Adding records -/

/-- The page of a name has been mapped: the name stands for `o`, new or as before, and all else is as it was. -/
structure Mapping (v w : View α) (page : Bytes) (o : ℕ) : Prop where
  names : ∀ name, w.shared.names name = if name = page then some o else v.shared.names name
  objects : ∀ name o', v.shared.names name = some o' → w.shared.objects o' = v.shared.objects o'
  marked : ∀ o', o' < v.shared.nextObject → (w.shared.objects o').unlinked = (v.shared.objects o').unlinked
  object : (w.shared.objects o).sized = true ∧ (w.shared.objects o).unlinked = false
  next : o < w.shared.nextObject ∧ v.shared.nextObject ≤ w.shared.nextObject
  unique : ∀ name, v.shared.names name = some o → name = page
  same : ∀ o', v.shared.names page = some o' → o' = o
  opened : ∀ p ∈ w.own.openedPagesList, p ∈ v.own.openedPagesList ∨ p = (page, o)

/-- **Mapping the page of an entry** never fails. -/
theorem Alone.mapping (h : Alone cfg v) (hcur : Current v) {w : View α} {page : Bytes} (hne : page ≠ [])
    (hshort : page.length ≤ mempageNameMaxLen - 6) (hnames : w.shared.names = v.shared.names)
    (hobjects : w.shared.objects = v.shared.objects) (hnext : w.shared.nextObject = v.shared.nextObject)
    (hown : w.own = v.own) :
    ∃ o w', w.getPageByName page .mapped = (.ok o, w') ∧ Mapping v w' page o ∧
      w'.shared.index = w.shared.index ∧ w'.globalExpireAt = w.globalExpireAt := by
  rcases hn : v.shared.names page with _ | o
  · -- a page without a name is not open here either, so a new object is mapped
    have hlocal : w.own.localGetPageByName page = none := by
      rw [hown]
      rcases hopen : v.own.localGetPageByName page with _ | o'
      · rfl
      · have hcurrent := hcur _ (mem_of_local hopen)
        rw [hn] at hcurrent
        cases hcurrent
    rw [getPageByName_new (hnames ▸ hn) hlocal hne hshort]
    refine ⟨_, _, rfl, ⟨fun name => ?_, fun name o' hn' => ?_, fun o' ho' => ?_, ?_, ?_, fun name hn' => ?_,
      fun o' ho' => ?_, fun p hp => ?_⟩, rfl, rfl⟩
    · rw [create_names, hnames]
      exact Function.update_apply ..
    · rw [create_object (hnext ▸ h.sound.allocated name o' hn'), hobjects]
    · rw [create_object (hnext ▸ ho'), hobjects]
    · rw [create_objects, Function.update_self]
      exact ⟨rfl, rfl⟩
    · exact ⟨Nat.lt_succ_self _, by rw [← hnext]; exact Nat.le_succ _⟩
    · have hlt := h.sound.allocated name _ hn'
      omega
    · rw [hn] at ho'
      cases ho'
    · rcases List.mem_append.1 hp with hold | hnew
      · exact .inl (hown ▸ hold)
      · exact .inr (List.mem_singleton.1 hnew)
  · -- the object that has the name is mapped, from what is open or anew
    obtain ⟨own, hget, hopened⟩ := getPageByName_named (v := w) (hnames ▸ hn) (hobjects ▸ (h.live page o hn).1)
      (fun o' ho' => h.local_eq hn (hown ▸ ho')) hne hshort
    rw [hget]
    refine ⟨_, _, rfl, ⟨fun name => ?_, fun name o' _ => ?_, fun o' _ => ?_, ?_, ?_,
      fun name hn' => h.sound.injective _ _ _ hn' hn, fun o' ho' => ?_, fun p hp => ?_⟩, rfl, rfl⟩
    · dsimp only
      rw [hnames]
      split_ifs with heq
      · rw [heq, hn]
      · rfl
    · rw [hobjects]
    · rw [hobjects]
    · rw [hobjects]
      exact h.live page o hn
    · exact ⟨hnext ▸ h.sound.allocated page o hn, hnext.ge⟩
    · rw [hn] at ho'
      exact (Option.some.inj ho').symm
    · rw [← hown]
      exact hopened p hp

/-- **Records are placed** in the page of the entry they were given slots of. -/
theorem Alone.place (h : Alone cfg v) (hcur : Current v) (hshort : ShortNames cfg) {w : View α} {now lifetime : ℕ}
    {memLow : Bool} {records : List α} {r : Reservation}
    (hr : Reserves cfg v w now memLow records.length lifetime r)
    (hearly : now + cfg.lifetime lifetime + removeExpiredPagesDelaySec < 2 ^ 32) :
    ∃ o w', w.getPageByName (cfg.pageName r.idx) .mapped = (.ok o, w') ∧
      Alone cfg ({ w' with shared := w'.shared.copy o r.start records } : View α) ∧
      Current ({ w' with shared := w'.shared.copy o r.start records } : View α) ∧
      Placed cfg v { w' with shared := w'.shared.copy o r.start records } now memLow records lifetime r := by
  have hframe := hr.frame
  obtain ⟨o, w', hget, hmap, hindex, hglobal⟩ := h.mapping hcur (pageName_ne_nil r.idx)
    (hshort r.idx hr.idx_lt) (by rw [hframe]) (by rw [hframe]) (by rw [hframe]) (by rw [hframe] : w.own = v.own)
  -- what a name stands for: the page, or what it stood for before
  have hcases (name : Bytes) (o' : ℕ) (hn : w'.shared.names name = some o') :
      name = cfg.pageName r.idx ∧ o' = o ∨ name ≠ cfg.pageName r.idx ∧ v.shared.names name = some o' := by
    rw [hmap.names] at hn
    by_cases heq : name = cfg.pageName r.idx
    · rw [if_pos heq] at hn
      exact .inl ⟨heq, (Option.some.inj hn).symm⟩
    · rw [if_neg heq] at hn
      exact .inr ⟨heq, hn⟩
  have hstays (name : Bytes) (o' : ℕ) (hn : v.shared.names name = some o') : w'.shared.names name = some o' := by
    rw [hmap.names]
    split_ifs with heq
    · rw [hmap.same o' (heq ▸ hn)]
    · exact hn
  have hnamed : w'.shared.names (cfg.pageName r.idx) = some o := by rw [hmap.names, if_pos rfl]
  have hcurrent : Current ({ w' with shared := w'.shared.copy o r.start records } : View α) := by
    intro page hpage
    rcases hmap.opened page hpage with hold | rfl
    · exact hstays _ _ (hcur page hold)
    · exact hnamed
  have hflags (o' : ℕ) := copy_flags w'.shared o o' r.start records
  refine ⟨o, w', hget, ⟨⟨fun name o' hn => ?_, fun name name' o' hn hn' => ?_⟩, ?_, ?_, fun j => ?_, fun j hj => ?_,
    fun j hj0 hj => ?_, fun j hj => ?_, ?_, fun name o' hn => ?_, fun page hpage => .inl (hcurrent page hpage)⟩,
    hcurrent, ⟨⟨w, hr, hindex, hglobal⟩, ⟨o, hnamed, fun i hi => ?_, fun o' hn => ?_⟩, fun j o' hj hn => ?_⟩⟩
  · rcases hcases name o' hn with ⟨-, rfl⟩ | ⟨-, hold⟩
    · exact hmap.next.1
    · exact (h.sound.allocated name o' hold).trans_le hmap.next.2
  · rcases hcases name o' hn with ⟨rfl, rfl⟩ | ⟨-, hold⟩
    · rcases hcases name' o' hn' with ⟨rfl, -⟩ | ⟨-, hold'⟩
      · rfl
      · exact (hmap.unique name' hold').symm
    · rcases hcases name' o' hn' with ⟨rfl, rfl⟩ | ⟨-, hold'⟩
      · exact hmap.unique name hold
      · exact h.sound.injective name name' o' hold hold'
  · show Bounded cfg w'.shared.index
    rw [hindex]
    exact hr.bounded h.bounded
  · show NamesFormed cfg w'.shared.index
    rw [hindex]
    exact hr.namesFormed h.names
  · show (w'.shared.index j).expireAt + removeExpiredPagesDelaySec < 2 ^ 32
    rw [hindex]
    exact hr.early hearly (h.early j)
  · have hused : 0 < (w'.shared.index j).expireAt := hj
    rw [hindex] at hused
    by_cases heq : j = r.idx
    · rw [heq]
      exact hr.idx_lt
    · rw [hr.others j heq] at hused
      exact h.range j hused
  · have hused : 0 < (w'.shared.index j).expireAt := hj
    show (w'.shared.index j).pageName = cfg.pageName j
    rw [hindex] at hused ⊢
    by_cases heq : j = r.idx
    · rw [heq] at hj0 ⊢
      exact hr.named h.names hj0 (h.named _ hj0)
    · rw [hr.others j heq] at hused ⊢
      exact h.named j hj0 hused
  · have hused : 0 < (w'.shared.index j).expireAt := hj
    rw [hindex] at hused
    by_cases heq : j = r.idx
    · rw [heq]
      exact ⟨o, hnamed⟩
    · rw [hr.others j heq] at hused
      obtain ⟨o', hn⟩ := h.paged j hused
      exact ⟨o', hstays _ _ hn⟩
  · show w'.shared.names [] = none
    rw [hmap.names, if_neg (pageName_ne_nil r.idx).symm]
    exact h.unnamed
  · obtain ⟨hsized, hunlinked⟩ := hflags o'
    show ((w'.shared.copy o r.start records).objects o').sized = true ∧
      ((w'.shared.copy o r.start records).objects o').unlinked = false
    rw [hsized, hunlinked]
    rcases hcases name o' hn with ⟨-, rfl⟩ | ⟨-, hold⟩
    · exact hmap.object
    · rw [hmap.objects name o' hold]
      exact h.live name o' hold
  · show ((w'.shared.copy o r.start records).objects o).elements (r.start + i) = records[i]
    rw [copy_elements, if_pos (by omega), Nat.add_sub_cancel_left, List.getElem?_eq_getElem hi]
    rfl
  · obtain rfl := hmap.same o' hn
    refine ⟨rfl, fun i hi => ?_⟩
    show ((w'.shared.copy o' r.start records).objects o').elements i = _
    rw [copy_elements, if_neg (by omega), hmap.objects _ o' hn]
  · refine ⟨hstays _ _ hn, ?_⟩
    show ((w'.shared.copy o r.start records).objects o').elements = _
    rw [copy_object, hmap.objects _ o' hn]
    -- the pages of two entries are two objects
    rintro rfl
    exact hj (pageName_injective (hmap.unique _ hn))

/-- **What an `addRecord` leaves**: the table as the maintenance left it, or with the records placed in it. -/
theorem Alone.addRecord (h : Alone cfg v) (hcur : Current v) (hshort : ShortNames cfg) {c : Calls}
    (hopens : ∀ name, c.opens name = .mapped) (records : List α) {lifetime : ℕ}
    (hearly : c.now + cfg.lifetime lifetime + removeExpiredPagesDelaySec < 2 ^ 32) :
    Alone cfg (v.addRecord cfg c records lifetime).2 ∧ Current (v.addRecord cfg c records lifetime).2 ∧
      ((∃ err, v.addRecord cfg c records lifetime = (.error err, (v.releaseExpiredMemoryPages cfg c).2)) ∨
        ∃ r v', v.addRecord cfg c records lifetime =
            (.ok ⟨cfg.pageName r.idx, r.start.toUInt32, records.length.toUInt32⟩, v') ∧
          Placed cfg (v.releaseExpiredMemoryPages cfg c).2 v' c.now c.memLow records lifetime r) := by
  obtain ⟨h₁, hcur₁, -, -⟩ := h.release hcur hshort c hopens
  -- the maintenance fails, the reservation fails, or the records go to the reserved page
  obtain ⟨err, v₁, hrel, hadd⟩ | ⟨v₁, hrel, ⟨err, hadd, -⟩ | ⟨r, w, -, hres, hopen⟩⟩ :=
    addRecord_cases cfg v c records lifetime
  · rw [hrel] at h₁ hcur₁ ⊢
    rw [hadd]
    exact ⟨h₁, hcur₁, .inl ⟨err, rfl⟩⟩
  · rw [hrel] at h₁ hcur₁ ⊢
    rw [hadd]
    exact ⟨h₁, hcur₁, .inl ⟨err, rfl⟩⟩
  rw [hrel] at h₁ hcur₁ ⊢
  obtain ⟨err, hfail, -⟩ | ⟨r', w', hres', hr⟩ := reserve_cases v₁ h₁.bounded c.now records.length lifetime c.memLow
  · rw [hfail] at hres
    cases hres
  rw [hres] at hres'
  cases hres'
  obtain ⟨o, w', hget, h', hcur', hplaced⟩ := h₁.place hcur₁ hshort hr hearly
  rw [hopens] at hopen
  -- opening the page cannot fail
  obtain ⟨err, v₃, hfail, -⟩ | ⟨o', v₃, hmapped, hadd⟩ := hopen
  · rw [hget] at hfail
    cases hfail
  rw [hget] at hmapped
  cases hmapped
  rw [hadd]
  exact ⟨h', hcur', .inr ⟨r, _, rfl, hplaced⟩⟩

end Operations

end DealsServer
