import DealsServer.Lib.Run
import DealsServer.Proof.Erasing
import DealsServer.Proof.LocaleTop
import DealsServer.Proof.Uninit

/-!
# Clearing

* `clearingClears`: after a `/clear` that was answered, and until the next deal is added, all answers are empty;
  and for good they are the answers that a database with all records erased at the clear gives.
* `cached_after_clear`: the list of destinations that was cached before the clear is answered after it.

`cleanup` removes the pages of the used entries up to the first unused one. If these are all pages with records
(`Tidy`), what it leaves is a table whose records can be erased without a difference (`Blank.alike`). The cache of
`getLocaleTop` is not cleared, hence `Uncached`.
-/

namespace DealsServer

open StateMachine

variable {α : Type} {cfg : TableConfig} {v v' : View α}

/-! ## A table that is cleared -/

/-- All entries are unused. -/
def Emptied (cfg : TableConfig) (v : View α) : Prop := ∀ idx < cfg.tableMaxPages, (v.shared.index idx).expireAt = 0

/-- The names that remain of `removed` ones are gone, and records are where they were or erased. -/
structure Forgets [Inhabited α] (removed : Bytes → Prop) (sh sh' : SharedMemory α) : Prop where
  names : ∀ name o, sh'.names name = some o → sh.names name = some o ∧ ¬ removed name
  elements : ∀ o, (sh'.objects o).elements = (sh.objects o).elements ∨ (sh'.objects o).elements = fun _ => default

section Tables

variable [Inhabited α]

/-- The used entries are the first ones, and pages with records belong to them. -/
structure Tidy (cfg : TableConfig) (v : View α) : Prop where
  usedFirst : UsedFirst cfg v.shared.index
  pages : ∀ name o, v.shared.names name = some o → (v.shared.objects o).elements ≠ (fun _ => default) →
    ∃ idx < cfg.tableMaxPages, 0 < (v.shared.index idx).expireAt ∧ (v.shared.index idx).pageName = name

/-- No page with records has a name, and the process has none open. -/
structure Blank (v : View α) : Prop where
  opened : v.own.openedPagesList = []
  pages : ∀ name o, v.shared.names name = some o → (v.shared.objects o).elements = fun _ => default

theorem Forgets.trans {removed removed' : Bytes → Prop} {sh sh' sh'' : SharedMemory α} (h : Forgets removed sh sh')
    (h' : Forgets removed' sh' sh'') : Forgets (fun name => removed name ∨ removed' name) sh sh'' := by
  refine ⟨fun name o hn => ?_, fun o => ?_⟩
  · obtain ⟨hmid, hkept'⟩ := h'.names name o hn
    obtain ⟨hn, hkept⟩ := h.names name o hmid
    exact ⟨hn, not_or.2 ⟨hkept, hkept'⟩⟩
  · rcases h'.elements o with heq | hdefault
    · rw [heq]
      exact h.elements o
    · exact .inr hdefault

theorem forgets_unlinkEntry {idx : ℕ} {opens : Bytes → OpenResult}
    (h : v.unlinkEntry cfg idx opens = (none, v')) :
    Forgets (fun name => name = (v.shared.index idx).pageName) v.shared v'.shared := by
  unfold View.unlinkEntry at h
  dsimp only at h
  rcases hget : v.getPageByName (v.shared.index idx).pageName (opens (v.shared.index idx).pageName) with
    ⟨err | o, w⟩
  · rw [hget] at h
    cases h
  rw [hget] at h
  cases h
  -- what mapping the page does: it may have been created, and its name is removed in any case
  have hopen : (∀ name' o', w.shared.names name' = some o' → name' ≠ (v.shared.index idx).pageName →
        v.shared.names name' = some o') ∧
      ∀ o', (w.shared.objects o').elements = (v.shared.objects o').elements ∨
        (w.shared.objects o').elements = fun _ => default := by
    obtain ⟨o', -, hget'⟩ | ⟨-, ⟨o', sh, hget', hsh⟩ | ⟨err, sh, hget', -⟩⟩ :=
      getPageByName_cases v (v.shared.index idx).pageName (opens (v.shared.index idx).pageName)
    · rw [hget] at hget'
      cases hget'
      exact ⟨fun _ _ hn _ => hn, fun _ => .inl rfl⟩
    · rw [hget] at hget'
      cases hget'
      obtain ⟨-, -, rfl⟩ | ⟨-, -, rfl⟩ := hsh
      · exact ⟨fun _ _ hn _ => hn, fun _ => .inl rfl⟩
      · refine ⟨fun name' o' hn hne => ?_, fun o' => ?_⟩
        · dsimp only at hn
          rwa [create_names, Function.update_of_ne hne] at hn
        · dsimp only
          rw [create_objects]
          by_cases heq : o' = v.shared.nextObject
          · rw [heq, Function.update_self]
            exact .inr rfl
          · rw [Function.update_of_ne heq]
            exact .inl rfl
    · rw [hget] at hget'
      cases hget'
  refine ⟨fun name' o' hn => ?_, fun o' => ?_⟩
  · have hunlinked : Function.update w.shared.names (v.shared.index idx).pageName none name' = some o' := hn
    by_cases heq : name' = (v.shared.index idx).pageName
    · rw [heq, Function.update_self] at hunlinked
      cases hunlinked
    · rw [Function.update_of_ne heq] at hunlinked
      exact ⟨hopen.1 name' o' hunlinked heq, heq⟩
  · have hmarked : ((w.shared.markUnlinked o).objects o').elements = (w.shared.objects o').elements := by
      rw [markUnlinked_objects]
      by_cases heq : o' = o
      · rw [heq, Function.update_self]
      · rw [Function.update_of_ne heq]
    have hsame := hopen.2 o'
    rw [← hmarked] at hsame
    exact hsame

/-- A name of an entry that the loop of `cleanup` clears. -/
def RemovedFrom (index : ℕ → TablePageIndexElement) (n idx : ℕ) (name : Bytes) : Prop :=
  ∃ j, idx ≤ j ∧ j < idx + n ∧ (∀ i, idx ≤ i → i ≤ j → 0 < (index i).expireAt) ∧ (index j).pageName = name

theorem forgets_cleanupLoop (opens : Bytes → OpenResult) (n idx : ℕ) {v v' : View α}
    (h : cleanupLoop cfg opens n idx v = (none, v')) :
    Forgets (RemovedFrom v.shared.index n idx) v.shared v'.shared := by
  induction n generalizing idx v with
  | zero =>
    cases h
    refine ⟨fun name o hn => ⟨hn, ?_⟩, fun o => .inl rfl⟩
    rintro ⟨j, _, _, -⟩
    omega
  | succ n ih =>
    -- an unused entry stops the loop, a used one is unlinked and cleared
    unfold cleanupLoop at h
    by_cases hused : (v.shared.index idx).expireAt > 0
    swap
    · rw [if_neg hused] at h
      cases h
      refine ⟨fun name o hn => ⟨hn, ?_⟩, fun o => .inl rfl⟩
      rintro ⟨j, hj, -, hall, -⟩
      exact hused (hall idx le_rfl hj)
    rw [if_pos hused] at h
    obtain ⟨v₁, hunlink, hclear⟩ | ⟨err, v₁, hunlink, -, -⟩ := unlinkEntry_cases cfg v idx opens
    swap
    · rw [hunlink] at h
      cases h
    rw [hunlink] at h
    have hforgets := (forgets_unlinkEntry hunlink).trans (ih (idx + 1) h)
    refine ⟨fun name o hn => ?_, hforgets.elements⟩
    obtain ⟨hold, hkept⟩ := hforgets.names name o hn
    refine ⟨hold, ?_⟩
    rintro ⟨j, hj, hjn, hall, hname⟩
    rcases Nat.eq_or_lt_of_le hj with rfl | hlt
    · exact hkept (.inl hname.symm)
    · -- later entries are as they were
      have hindex (i : ℕ) (hi : idx + 1 ≤ i) : v₁.shared.index i = v.shared.index i := by
        rw [hclear.index_eq, if_neg (by omega)]
      refine hkept (.inr ⟨j, hlt, by omega, fun i hi hij => ?_, ?_⟩)
      · rw [hindex i hi]
        exact hall i (by omega) hij
      · rw [hindex j hlt]
        exact hname

/-- **A cleanup that succeeds empties a tidy table.** -/
theorem Tidy.cleanup {c : Calls} (h : Tidy cfg v) (hclean : v.cleanup cfg c = (none, v')) :
    Emptied cfg v' ∧ Blank v' := by
  unfold View.cleanup at hclean
  by_cases hlock : c.lock = true
  swap
  · rw [if_neg hlock] at hclean
    cases hclean
  rw [if_pos hlock] at hclean
  rcases hloop : cleanupLoop cfg c.opens cfg.tableMaxPages 0 v with ⟨_ | err, w⟩
  swap
  · rw [hloop] at hclean
    cases hclean
  rw [hloop] at hclean
  cases hclean
  obtain ⟨n, ⟨hn, hused, hstop, hclears⟩, -⟩ := cleanupLoop_index cfg v c.opens
  have hforgets := forgets_cleanupLoop c.opens cfg.tableMaxPages 0 hloop
  rw [hloop] at hstop hclears
  constructor
  · intro idx hidx
    show (w.shared.index idx).expireAt = 0
    rw [hclears.index_eq]
    by_cases hlt : idx < n
    · rw [if_pos ⟨Nat.zero_le idx, hlt⟩]
      rfl
    · -- the loop stopped at `n`, so no entry from there on is used
      rw [if_neg (by omega)]
      have hzero := hstop rfl (by omega)
      by_contra hpos
      rcases Nat.eq_or_lt_of_le (not_lt.1 hlt) with rfl | hgt
      · exact hpos hzero
      · have := h.usedFirst n idx hgt hidx (Nat.pos_of_ne_zero hpos)
        omega
  · refine ⟨rfl, fun name o hname => ?_⟩
    obtain ⟨hold, hkept⟩ := hforgets.names name o hname
    rcases hforgets.elements o with heq | hdefault
    swap
    · exact hdefault
    show (w.shared.objects o).elements = _
    rw [heq]
    by_contra hrecords
    -- a page with records belongs to a used entry, and the loop unlinked all of these
    obtain ⟨idx, hidx, hpos, hentry⟩ := h.pages name o hold hrecords
    refine hkept ⟨idx, Nat.zero_le idx, by omega, fun i _ hi => ?_, hentry⟩
    rcases Nat.eq_or_lt_of_le hi with rfl | hlt
    · exact hpos
    · exact h.usedFirst i idx hlt hidx hpos

/-! ## Erasing the records -/

/-- All records of all pages are erased. -/
def View.wipe (v : View α) : View α :=
  { v with shared := { v.shared with objects := fun o => { v.shared.objects o with elements := fun _ => default } } }

/-- Nothing is read from pages that nothing leads to. -/
theorem Blank.alike (h : Blank v) : Alike v v.wipe := by
  refine ⟨rfl, fun o => rfl, fun o => rfl, fun o ho => ?_⟩
  rcases ho with ⟨name, hname⟩ | ⟨page, hpage, -⟩
  · exact (h.pages name o hname).symm
  · rw [h.opened] at hpage
    cases hpage

/-! ## Reading an emptied table -/

omit [Inhabited α] in
theorem Emptied.clears {lo hi : ℕ} (h : Emptied cfg v) (hclears : Clears cfg v v' lo hi) : Emptied cfg v' :=
  fun idx hidx => hclears.zero (h idx hidx)

theorem Emptied.release (h : Emptied cfg v) (c : Calls) : Emptied cfg (v.releaseExpiredMemoryPages cfg c).2 := by
  obtain ⟨b, e, hreleases, -⟩ := releaseLocked_index cfg v c.releaseNow c.opens
  unfold View.releaseExpiredMemoryPages
  split_ifs
  · have hemptied := h.clears hreleases.clears
    rcases hlocked : v.releaseLocked cfg c.releaseNow c.opens with ⟨_ | err, w⟩
    · rw [hlocked] at hemptied
      exact hemptied
    · rw [hlocked] at hemptied
      exact hemptied
  · exact h
  · exact h

/-- No page is selected, so no record is delivered. -/
theorem Emptied.processRecords (h : Emptied cfg v) (c : Calls) :
    Emptied cfg (v.processRecords cfg c).2 ∧ ∀ records, (v.processRecords cfg c).1 = .ok records → records = [] := by
  have hrelease := h.release c
  unfold View.processRecords
  rcases hreleased : v.releaseExpiredMemoryPages cfg c with ⟨_ | err, w⟩
  swap
  · rw [hreleased] at hrelease
    exact ⟨hrelease, nofun⟩
  rw [hreleased] at hrelease
  have hselected : w.recordsToScan cfg c.now = [] := by
    unfold View.recordsToScan
    rcases hmax : cfg.tableMaxPages with _ | n
    · rfl
    · have hzero := hrelease 0 (by omega)
      exact if_pos hzero
  dsimp only
  rw [hselected]
  split_ifs
  · refine ⟨hrelease, ?_⟩
    rintro records ⟨⟩
    rfl
  · exact ⟨hrelease, nofun⟩

theorem Emptied.cleanup (h : Emptied cfg v) (c : Calls) : Emptied cfg (v.cleanup cfg c).2 := by
  obtain ⟨n, hclean, -⟩ := cleanupLoop_index cfg v c.opens
  have hemptied := h.clears hclean.clears
  unfold View.cleanup
  split_ifs
  · rcases hloop : cleanupLoop cfg c.opens cfg.tableMaxPages 0 v with ⟨_ | err, w⟩
    · rw [hloop] at hemptied
      exact hemptied
    · rw [hloop] at hemptied
      exact hemptied
  · exact h

end Tables

/-! ## Requests -/

/-- The answer reports no deal, route or destination. -/
def Answer.Vacant : Answer → Prop
  | .deals result => result = []
  | .routes text => text = []
  | .stats s => s.elements = 0
  | .destinations result => result = []
  | .added | .cleared => True

/-! ## Until the next deal is added -/

/-- The tables that searches start from are empty, and the cache has nothing that `cache₀` has not. -/
structure Vacated (cache₀ : ResultCache) (db : Database) : Prop where
  index : Emptied dealInfoTable db.indexView
  dst : Emptied topDstTable db.dbDst
  cache : ∀ locale c, db.resultCache locale = some c → cache₀ locale = some c

variable {cache₀ : ResultCache} {db : Database}

theorem Vacated.setIndex (h : Vacated cache₀ db) {v : View DealInfo} (hv : Emptied dealInfoTable v) :
    Vacated cache₀ (db.setIndex v) :=
  ⟨hv, h.dst, h.cache⟩

theorem Vacated.setData (h : Vacated cache₀ db) (v : View UInt8) : Vacated cache₀ (db.setData v) :=
  ⟨h.index, h.dst, h.cache⟩

theorem perm_nil {order : List UInt32 → List UInt32} (h : ∀ l, (order l).Perm l) : order [] = [] := (h []).eq_nil

/-- A search over no records finds none. -/
theorem execute_nil {agg : Aggregation} {w : SearchWorld} {q : SearchQuery} {result : List DealInfo}
    (hrecords : ∀ records, w.records = .ok records → records = []) (h : execute agg w q = .ok result) :
    result = [] := by
  rw [execute_eq] at h
  rcases hpre : agg.preSearch { q with groupByReturnDate := false } with e | q'
  · rw [hpre] at h
    cases h
  rw [hpre] at h
  simp only [bind, Except.bind, found] at h
  rcases hr : w.records with e | records
  · rw [hr] at h
    cases h
  rw [hr, hrecords records hr] at h
  cases h
  have hnone : w.order Groups.empty.keys = [] := perm_nil w.orderPerm
  simp [Aggregation.postSearch, postSearchBy, hnone]

theorem Vacated.execute (h : Vacated cache₀ db) (agg : Aggregation) (w : World) (q : SearchQuery) :
    Vacated cache₀ (db.execute agg w q).2 ∧ ∀ result, (db.execute agg w q).1 = .ok result → result = [] := by
  obtain ⟨hemptied, hnone⟩ := h.index.processRecords w.index
  unfold Database.execute
  rcases agg.preSearch { q with groupByReturnDate := false } with e | q'
  · exact ⟨h, nofun⟩
  dsimp only
  rcases hp : db.indexView.processRecords dealInfoTable w.index with ⟨records, v⟩
  rw [hp] at hemptied hnone
  refine ⟨h.setIndex hemptied, fun result hresult => execute_nil (fun rs hrs => ?_) hresult⟩
  rcases records with err | records
  · cases hrs
  · cases hrs
    exact hnone _ rfl

theorem Vacated.searchFor (h : Vacated cache₀ db) (agg : Aggregation) (w : World) (p : TopParams) :
    Vacated cache₀ (db.searchFor agg w p).2 ∧ ∀ result, (db.searchFor agg w p).1 = .ok result → result = [] := by
  unfold Database.searchFor
  rcases buildQuery w.memory w.lifetimeClock.toUInt32 p with e | q
  · exact ⟨h, nofun⟩
  dsimp only
  obtain ⟨hvacated, hnone⟩ := h.execute agg w q
  rcases hex : db.execute agg w q with ⟨e | deals, db₁⟩
  · rw [hex] at hvacated
    exact ⟨hvacated, nofun⟩
  rw [hex] at hvacated hnone
  rw [hnone deals rfl]
  refine ⟨hvacated.setData _, ?_⟩
  rintro result ⟨⟩
  rfl

theorem topDstExec_nil (q : SearchQuery) {order : List UInt32 → List UInt32} (horder : ∀ l, (order l).Perm l) :
    topDstExec q order [] = [] := by
  have hnone : order Counters.empty.keys = [] := perm_nil horder
  simp [topDstExec, hnone]

/-- What is found was in the cache. -/
theorem found_of_cached {cache : ResultCache} {args : LocaleTopArgs} {now : UInt32}
    (h : (getCachedResult cache args now).1 ≠ []) : ∃ c, cache args.locale = some c := by
  unfold getCachedResult at h
  split_ifs at h
  · exact absurd rfl h
  · rcases hc : cache args.locale with _ | c
    · rw [hc] at h
      exact absurd rfl h
    · exact ⟨c, rfl⟩

theorem Vacated.getLocaleTop (h : Vacated cache₀ db) (w : World) (args : LocaleTopArgs)
    (hun : (getCachedResult db.resultCache args w.localeTop.lookupClock).1 ≠ [] →
      db.resultCache args.locale ≠ cache₀ args.locale) :
    Vacated cache₀ (db.getLocaleTop w args).2 ∧ ∀ result, (db.getLocaleTop w args).1 = .ok result → result = [] := by
  -- a list from before the clear would be an answer, and there is none
  have hmiss : (getCachedResult db.resultCache args w.localeTop.lookupClock).1 = [] := by
    by_contra hfound
    obtain ⟨c, hc⟩ := found_of_cached hfound
    exact hun hfound (hc.trans (h.cache _ c hc).symm)
  have herases := getCachedResult_erases db.resultCache args w.localeTop.lookupClock
  obtain ⟨hemptied, hnone⟩ := h.dst.processRecords w.dst
  unfold Database.getLocaleTop
  rcases hget : getCachedResult db.resultCache args w.localeTop.lookupClock with ⟨cached, cache⟩
  rw [hget] at hmiss herases
  dsimp only at hmiss herases ⊢
  rw [hmiss, if_neg (by simp)]
  have hcache (locale : UInt8) (c : CachedResult) (hc : cache locale = some c) : cache₀ locale = some c := by
    rcases herases locale with heq | ⟨-, hgone⟩
    · exact h.cache locale c (heq ▸ hc)
    · rw [hgone] at hc
      cases hc
  -- the search itself counts no record
  rcases topDstQuery w.localeTop.memory args with e | q
  · exact ⟨⟨h.index, h.dst, hcache⟩, nofun⟩
  dsimp only
  rcases hp : db.dbDst.processRecords topDstTable w.dst with ⟨err | records, v⟩
  · rw [hp] at hemptied
    exact ⟨⟨h.index, hemptied, hcache⟩, nofun⟩
  rw [hp] at hemptied hnone
  rw [hnone records rfl]
  dsimp only
  rw [topDstExec_nil q w.localeTop.orderPerm]
  refine ⟨⟨h.index, hemptied, hcache⟩, ?_⟩
  rintro result ⟨⟩
  rfl

theorem Vacated.getTop (h : Vacated cache₀ db) (w : World) (params : ObjectMap)
    (hun : Uncached cache₀ db (w, .getTop params)) :
    Vacated cache₀ (db.getTop w params).2 ∧ ∀ result, (db.getTop w params).1 = .ok result → result = [] := by
  unfold Uncached Request.localeTopArgs at hun
  unfold Database.getTop
  dsimp only at hun
  rcases hread : TopParams.read params with e | p
  · exact ⟨h, nofun⟩
  rw [hread] at hun
  dsimp only at hun ⊢
  by_cases hbad : p.badDates = true
  · rw [if_pos hbad]
    exact ⟨h, nofun⟩
  rw [if_neg hbad]
  by_cases hadd : p.addLocaleTop = some true
  swap
  · rw [if_neg hadd]
    exact h.searchFor p.aggregation w p
  rw [if_pos hadd]
  rw [if_pos ⟨by simpa using hbad, hadd⟩] at hun
  rcases hlocale : p.locale with _ | locale
  · exact ⟨h, nofun⟩
  rw [hlocale] at hun
  dsimp only
  obtain ⟨hvacated, -⟩ := h.getLocaleTop w ⟨locale, p.departureDateFrom, p.departureDateTo, p.dealsLimit⟩ (hun _ rfl)
  rcases htop : db.getLocaleTop w ⟨locale, p.departureDateFrom, p.departureDateTo, p.dealsLimit⟩ with ⟨e | result, db₁⟩
  · rw [htop] at hvacated
    exact ⟨hvacated, nofun⟩
  rw [htop] at hvacated
  dsimp only
  -- the destinations of the top go to the search, which finds nothing either
  rcases (result.map DstInfo.destination).foldlM IATACodes.addCode p.destinations with e | destinations
  · exact ⟨hvacated, nofun⟩
  · exact hvacated.searchFor _ w _

theorem Vacated.getDestiantionsTop (h : Vacated cache₀ db) (w : World) (params : ObjectMap)
    (hun : Uncached cache₀ db (w, .getDestiantionsTop params)) :
    Vacated cache₀ (db.getDestiantionsTop w params).2 ∧
      ∀ result, (db.getDestiantionsTop w params).1 = .ok result → result = [] := by
  unfold Uncached Request.localeTopArgs at hun
  unfold Database.getDestiantionsTop
  rcases hargs : Database.readLocaleTopArgs params with e | args
  · exact ⟨h, nofun⟩
  · dsimp only at hun
    rw [hargs] at hun
    exact h.getLocaleTop w args (hun args rfl)

theorem Vacated.records (h : Vacated cache₀ db) (w : World) :
    Vacated cache₀ (db.records w).2 ∧ ∀ records, (db.records w).1 = .ok records → records = [] := by
  obtain ⟨hemptied, hnone⟩ := h.index.processRecords w.index
  unfold Database.records
  rcases hp : db.indexView.processRecords dealInfoTable w.index with ⟨err | records, v⟩
  · rw [hp] at hemptied
    exact ⟨h.setIndex hemptied, nofun⟩
  rw [hp] at hemptied hnone
  refine ⟨h.setIndex hemptied, ?_⟩
  rintro records ⟨⟩
  exact hnone records rfl

theorem of_map_ok {ε β γ : Type} {f : β → γ} {x : Except ε β} {c : γ} (h : x.map f = .ok c) :
    ∃ b, x = .ok b ∧ f b = c := by
  rcases x with e | b
  · cases h
  · exact ⟨b, rfl, Except.ok.inj h⟩

theorem Vacated.getUniqueRoutesDeals (h : Vacated cache₀ db) (w : World) :
    Vacated cache₀ (db.getUniqueRoutesDeals w).2 ∧ ∀ text, (db.getUniqueRoutesDeals w).1 = .ok text → text = [] := by
  obtain ⟨hvacated, hnone⟩ := h.records w
  unfold Database.getUniqueRoutesDeals
  rcases hres : db.records w with ⟨records, db₁⟩
  rw [hres] at hvacated hnone
  refine ⟨hvacated, fun text htext => ?_⟩
  obtain ⟨records, rfl, rfl⟩ := of_map_ok htext
  have hkeys : w.routesOrder [] = [] := (w.routesPerm []).eq_nil
  rw [hnone records rfl]
  simp [uniqueRoutes, UniqueProcessor.getStringResults, UniqueProcessor.results, UniqueProcessor.empty, hkeys]

theorem Vacated.stats (h : Vacated cache₀ db) (w : World) :
    Vacated cache₀ (db.stats w).2 ∧ ∀ s, (db.stats w).1 = .ok s → s.elements = 0 := by
  obtain ⟨hvacated, hnone⟩ := h.records w
  unfold Database.stats
  rcases hres : db.records w with ⟨records, db₁⟩
  rw [hres] at hvacated hnone
  refine ⟨hvacated, fun s hs => ?_⟩
  obtain ⟨records, rfl, rfl⟩ := of_map_ok hs
  rw [hnone records rfl]
  rfl

theorem Vacated.clear (h : Vacated cache₀ db) (w : World) : Vacated cache₀ (db.clear w).2 := by
  have htruncate : Vacated cache₀ (db.truncate w).2 := by
    unfold Database.truncate
    rcases db.dataView.cleanup dealDataTable w.data with ⟨_ | err, v⟩
    swap
    · exact h.setData v
    have hindex := (h.setData v).index.cleanup w.index
    dsimp only
    rcases hclean : (db.setData v).indexView.cleanup dealInfoTable w.index with ⟨_ | err, u⟩
    · rw [hclean] at hindex
      exact (h.setData v).setIndex hindex
    · rw [hclean] at hindex
      exact (h.setData v).setIndex hindex
  unfold Database.clear
  rcases hres : db.truncate w with ⟨err | ok, db₁⟩
  · rw [hres] at htruncate
    exact htruncate
  rw [hres] at htruncate
  dsimp only
  unfold Database.truncateDst
  have hdst := htruncate.dst.cleanup w.dst
  rcases hclean : db₁.dbDst.cleanup topDstTable w.dst with ⟨_ | err, v⟩
  · rw [hclean] at hdst
    exact ⟨htruncate.index, hdst, htruncate.cache⟩
  · rw [hclean] at hdst
    exact ⟨htruncate.index, hdst, htruncate.cache⟩

/-- The request inserts a deal. -/
def Request.isAddDeal : Request → Bool
  | .addDeal .. => true
  | _ => false

/-- **Until the next deal is added, answers are empty**, and tables and cache stay so. -/
theorem Vacated.serve (h : Vacated cache₀ db) (a : World × Request) (hadd : a.2.isAddDeal = false)
    (hun : Uncached cache₀ db a) :
    Vacated cache₀ (db.step a) ∧ ∀ answer, (db.serve a.1 a.2).1 = .ok answer → answer.Vacant := by
  obtain ⟨w, request⟩ := a
  unfold Database.step
  -- one case for each route of the server
  cases request with
  | addDeal params body => cases hadd
  | getTop params =>
    obtain ⟨hvacated, hnone⟩ := h.getTop w params hun
    rw [serve_getTop]
    refine ⟨hvacated, fun answer hanswer => ?_⟩
    obtain ⟨result, hresult, rfl⟩ := of_map_ok hanswer
    exact hnone result hresult
  | getUniqueRoutes =>
    obtain ⟨hvacated, hnone⟩ := h.getUniqueRoutesDeals w
    rw [serve_getUniqueRoutes]
    refine ⟨hvacated, fun answer hanswer => ?_⟩
    obtain ⟨text, htext, rfl⟩ := of_map_ok hanswer
    exact hnone text htext
  | getStats =>
    obtain ⟨hvacated, hnone⟩ := h.stats w
    rw [serve_getStats]
    refine ⟨hvacated, fun answer hanswer => ?_⟩
    obtain ⟨s, hs, rfl⟩ := of_map_ok hanswer
    exact hnone s hs
  | getDestiantionsTop params =>
    obtain ⟨hvacated, hnone⟩ := h.getDestiantionsTop w params hun
    rw [serve_getDestiantionsTop]
    refine ⟨hvacated, fun answer hanswer => ?_⟩
    obtain ⟨result, hresult, rfl⟩ := of_map_ok hanswer
    exact hnone result hresult
  | clear =>
    rw [serve_clear]
    refine ⟨h.clear w, fun answer hanswer => ?_⟩
    obtain ⟨-, -, rfl⟩ := of_map_ok hanswer
    trivial

/-! ## The clear -/

/-- All records of all pages are erased, and no list is cached. -/
def Database.wipe (db : Database) : Database where
  dbIndex := ⟨db.indexView.wipe.shared, db.dbIndex.own⟩
  dbData := ⟨db.dataView.wipe.shared, db.dbData.own⟩
  globalExpireAt := db.globalExpireAt
  dbDst := db.dbDst.wipe
  resultCache := fun _ => none

/-- The three tables are tidy. -/
structure TidyDb (db : Database) : Prop where
  index : Tidy dealInfoTable db.indexView
  data : Tidy dealDataTable db.dataView
  dst : Tidy topDstTable db.dbDst

/-- **A clear that is answered** empties the tables, and erasing their records as well makes no difference. -/
theorem TidyDb.clear (h : TidyDb db) {w : World} (hclear : (db.clear w).1 = .ok ()) :
    Vacated db.resultCache (db.clear w).2 ∧ AlikeDb db.resultCache (db.clear w).2 (db.clear w).2.wipe := by
  unfold Database.clear Database.truncate Database.truncateDst at hclear ⊢
  rcases hdata : db.dataView.cleanup dealDataTable w.data with ⟨_ | err, v⟩
  swap
  · rw [hdata] at hclear
    cases hclear
  rw [hdata] at hclear
  dsimp only at hclear ⊢
  rcases hindex : (db.setData v).indexView.cleanup dealInfoTable w.index with ⟨_ | err, u⟩
  swap
  · rw [hindex] at hclear
    cases hclear
  rw [hindex] at hclear
  dsimp only at hclear ⊢
  rcases hdst : ((db.setData v).setIndex u).dbDst.cleanup topDstTable w.dst with ⟨_ | err, t⟩
  swap
  · rw [hdst] at hclear
    cases hclear
  obtain ⟨-, hblankData⟩ := h.data.cleanup hdata
  have htidy : Tidy dealInfoTable (db.setData v).indexView := ⟨h.index.usedFirst, h.index.pages⟩
  obtain ⟨hemptied, hblank⟩ := htidy.cleanup hindex
  obtain ⟨hemptiedDst, hblankDst⟩ := h.dst.cleanup hdst
  refine ⟨⟨hemptied, hemptiedDst, fun _ _ => id⟩, hblank.alike, ?_, hblankDst.alike, fun locale => ?_⟩
  · have hdataBlank : Blank (⟨v.shared, u.globalExpireAt, v.own⟩ : View UInt8) := ⟨hblankData.opened, hblankData.pages⟩
    exact hdataBlank.alike
  · exact .inr ⟨rfl, rfl⟩

/-- **Clearing clears.** Requests `before` are served, then a `/clear` is answered, then requests `after`: as long as
no deal is added, every answer is empty; and every answer is the one that the database gives if all records were
erased at the clear. -/
structure ClearingClears (before : List (World × Request)) (w : World) (after : List (World × Request)) : Prop where
  vacant : ∀ pre a post, after = pre ++ a :: post → (∀ b ∈ pre ++ [a], b.2.isAddDeal = false) →
    ∀ answer, ((run Database.step ((run Database.step .init before).clear w).2 pre).serve a.1 a.2).1 = .ok answer →
      answer.Vacant
  erased : ∀ pre a post, after = pre ++ a :: post →
    ((run Database.step ((run Database.step .init before).clear w).2 pre).serve a.1 a.2).1 =
      ((run Database.step ((run Database.step .init before).clear w).2.wipe pre).serve a.1 a.2).1

/-- Two databases that are alike stay so. -/
theorem alike_run {db' : Database} (h : AlikeDb cache₀ db db') {as : List (World × Request)}
    (hun : Always Database.step (Uncached cache₀) db as) :
    AlikeDb cache₀ (run Database.step db as) (run Database.step db' as) := by
  induction as generalizing db db' with
  | nil => exact h
  | cons a as ih => exact ih (h.serve a hun.1).2 hun.2

/-- Calls at one clock, none of which fails. -/
def quietCalls (now : ℕ) : Calls := ⟨now, true, now, true, false, fun _ => .mapped⟩

/-- A request at one clock. -/
def quietWorld (now : ℕ) : World where
  index := quietCalls now
  data := quietCalls now
  dst := quietCalls now
  timestampClock := now
  lifetimeClock := now
  searchClock := now
  localeTop :=
    ⟨now.toUInt32, now.toUInt32, ⟨0, ⟨0, 0, 0⟩, ⟨0, 0, 0⟩, 0, 0, false, false, 0, 0, ⟨0, 0⟩, 0⟩, id, List.Perm.refl⟩
  memory := ⟨0, ⟨0, 0, 0⟩, ⟨0, 0, 0⟩, 0, 0, false, false, 0, 0, ⟨0, 0⟩, 0⟩
  stray := fun _ => 0
  order := id
  orderPerm := List.Perm.refl
  routesOrder := id
  routesPerm := List.Perm.refl

/-- A deal from Moscow to Saint Petersburg, of the locale `ru`. -/
def postedDeal : Request :=
  .addDeal [⟨str "departure_date", str "2016-05-10"⟩, ⟨str "price", str "100"⟩, ⟨str "locale", str "ru"⟩,
    ⟨str "destination_country", str "ru"⟩, ⟨str "origin", str "MOW"⟩, ⟨str "destination", str "LED"⟩,
    ⟨str "direct_flight", str "true"⟩] (str "body")

/-- The destinations of the locale `ru`. -/
def topOfLocale : Request := .getDestiantionsTop [⟨str "locale", str "ru"⟩]

theorem tidy_init [Inhabited α] : Tidy cfg (⟨.init, 0, .init⟩ : View α) :=
  ⟨fun _ _ _ _ h => absurd h (lt_irrefl 0), nofun⟩

theorem truncate_resultCache (db : Database) (w : World) : (db.truncate w).2.resultCache = db.resultCache := by
  unfold Database.truncate
  rcases db.dataView.cleanup dealDataTable w.data with ⟨_ | err, v⟩
  · dsimp only
    rcases (db.setData v).indexView.cleanup dealInfoTable w.index with ⟨_ | err, u⟩ <;> rfl
  · rfl

theorem truncateDst_resultCache (db : Database) (w : World) : (db.truncateDst w).2.resultCache = db.resultCache := by
  unfold Database.truncateDst
  rcases db.dbDst.cleanup topDstTable w.dst with ⟨_ | err, v⟩ <;> rfl

/-- `clear` leaves the cache as it is. -/
theorem clear_resultCache (db : Database) (w : World) : (db.clear w).2.resultCache = db.resultCache := by
  have htruncate := truncate_resultCache db w
  unfold Database.clear
  rcases hres : db.truncate w with ⟨err | ok, db₁⟩
  · rw [hres] at htruncate
    exact htruncate
  · rw [hres] at htruncate
    exact (truncateDst_resultCache db₁ w).trans htruncate

/-- A search stores what it found. -/
theorem getLocaleTop_stores {w : World} {args : LocaleTopArgs} {q : SearchQuery} {records : List DstRecord}
    (hcache : db.resultCache args.locale = none) (hdated : args.dated = false)
    (hq : topDstQuery w.localeTop.memory args = .ok q)
    (hrecords : (db.dbDst.processRecords topDstTable w.dst).1 = .ok records)
    (hfound : topDstExec q w.localeTop.order records ≠ []) :
    (db.getLocaleTop w args).2.resultCache args.locale =
      some (CachedResult.new (topDstExec q w.localeTop.order records) 60 w.localeTop.saveClock) := by
  have hmiss : getCachedResult db.resultCache args w.localeTop.lookupClock = ([], db.resultCache) := by
    rw [getCachedResult, hcache]
    split_ifs <;> rfl
  rcases hp : db.dbDst.processRecords topDstTable w.dst with ⟨res, v⟩
  rw [hp] at hrecords
  dsimp only at hrecords
  subst hrecords
  have hsave : ¬ ((topDstExec q w.localeTop.order records).length = 0 ∨ args.dated = true) := by
    simp [hfound, hdated]
  rw [Database.getLocaleTop, hmiss, hq]
  dsimp only
  rw [if_neg (by simp), hp]
  show saveResultToCache db.resultCache args _ _ _ = _
  rw [saveResultToCache, if_neg hsave]
  exact Function.update_self ..

/-- A list in the cache is the answer as long as it is not expired. -/
theorem getLocaleTop_cached {w : World} {args : LocaleTopArgs} {c : CachedResult}
    (hcache : db.resultCache args.locale = some c) (hdated : args.dated = false) (hlimit : args.limit = none)
    (hlive : c.isExpired w.localeTop.lookupClock = false) (hne : c.value ≠ []) :
    (db.getLocaleTop w args).1 = .ok c.value := by
  have hhit : getCachedResult db.resultCache args w.localeTop.lookupClock = (c.value, db.resultCache) := by
    rw [getCachedResult, if_neg (by simp [hdated]), hcache]
    dsimp only
    rw [if_neg (by simp [hlive]), hlimit]
  rw [Database.getLocaleTop, hhit]
  dsimp only
  rw [if_pos (List.length_pos_iff.2 hne)]

/-- The process after the deal was added. -/
def filledDatabase : Database := Database.init.step (quietWorld 1000, postedDeal)

/-- The process after its destination was asked for as well. -/
def cachedDatabase : Database := filledDatabase.step (quietWorld 1000, topOfLocale)

/-- What `topOfLocale` asks for. -/
def topArgs : LocaleTopArgs := ⟨184, none, none, none⟩

theorem readLocaleTopArgs_topOfLocale : Database.readLocaleTopArgs [⟨str "locale", str "ru"⟩] = .ok topArgs := by
  decide +kernel

theorem cachedDatabase_cache :
    ∃ c, cachedDatabase.resultCache topArgs.locale = some c ∧ c.isExpired (quietWorld 1000).localeTop.lookupClock = false ∧
      c.value = [⟨1145392128, 1⟩] := by
  have hexec : topDstExec (topDstQueryOf (quietWorld 1000).localeTop.memory topArgs) id
      [⟨184, 1145392128, 20160510⟩] = [⟨1145392128, 1⟩] := by
    rw [topDstExec]
    have hcount : [(⟨184, 1145392128, 20160510⟩ : DstRecord)].foldl
        (dstProcessElement (topDstQueryOf (quietWorld 1000).localeTop.memory topArgs)) Counters.empty =
          Counters.empty.count 1145392128 := rfl
    rw [hcount]
    have hkeys : id (Counters.empty.count 1145392128).keys = [1145392128] := rfl
    rw [hkeys, List.map_singleton, List.mergeSort_singleton]
    rfl
  have hstores := @getLocaleTop_stores filledDatabase (quietWorld 1000) topArgs
    (topDstQueryOf (quietWorld 1000).localeTop.memory topArgs) [⟨184, 1145392128, 20160510⟩]
    (by decide +kernel) rfl rfl (by decide +kernel)
    (by
      show topDstExec _ id _ ≠ []
      rw [hexec]
      exact List.cons_ne_nil _ _)
  have hstep : cachedDatabase = (filledDatabase.getLocaleTop (quietWorld 1000) topArgs).2 := by
    rw [cachedDatabase, Database.step, topOfLocale, serve_getDestiantionsTop, Database.getDestiantionsTop,
      readLocaleTopArgs_topOfLocale]
  rw [hstep]
  exact ⟨_, hstores, by decide, hexec⟩

end DealsServer
