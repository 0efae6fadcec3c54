import DealsServer.Proof.Contents
import DealsServer.Spec.Database

/-!
# Databases that differ in what is not read

* `AlikeDb`: the tables are `Alike`, and one cache lacks entries that the other has from before.
* `AlikeDb.serve`: every request that takes none of these entries is answered the same on both, and leaves them so.
-/

namespace DealsServer

/-- The table with `global_expire_at` set, as a request on another table sets it. -/
theorem Alike.setGlobal {α : Type} {v v' : View α} (h : Alike v v') (g : ℕ) :
    Alike { v with globalExpireAt := g } { v' with globalExpireAt := g } := by
  obtain ⟨objects, rfl⟩ := h.replaced
  exact h.write v.shared.index v.shared.expirationCheck g v.shared.names v.own (fun _ _ => id) fun _ hp => hp

/-! ## Requests -/

/-- The process after a request. -/
def Database.step (db : Database) (a : World × Request) : Database := (db.serve a.1 a.2).2

/-- What the request asks `getLocaleTop` for. -/
def Request.localeTopArgs : Request → Option LocaleTopArgs
  | .getTop params =>
    match TopParams.read params with
    | .error _ => none
    | .ok p =>
      if p.badDates = false ∧ p.addLocaleTop = some true then
        p.locale.map fun locale => ⟨locale, p.departureDateFrom, p.departureDateTo, p.dealsLimit⟩
      else none
  | .getDestiantionsTop params => (Database.readLocaleTopArgs params).toOption
  | _ => none

/-- The request takes no list that `cache₀` has. -/
def Uncached (cache₀ : ResultCache) (db : Database) (a : World × Request) : Prop :=
  ∀ args, a.2.localeTopArgs = some args →
    (getCachedResult db.resultCache args a.1.localeTop.lookupClock).1 ≠ [] → db.resultCache args.locale ≠ cache₀ args.locale

theorem getCachedResult_erases (cache : ResultCache) (args : LocaleTopArgs) (now : UInt32) (locale : UInt8) :
    (getCachedResult cache args now).2 locale = cache locale ∨
      locale = args.locale ∧ (getCachedResult cache args now).2 locale = none := by
  unfold getCachedResult
  split_ifs
  · exact .inl rfl
  rcases cache args.locale with _ | c
  · exact .inl rfl
  dsimp only
  split_ifs
  · by_cases heq : locale = args.locale
    · exact .inr ⟨heq, by rw [heq]; exact Function.update_self ..⟩
    · exact .inl (Function.update_of_ne heq ..)
  · rcases args.limit with _ | limit
    · exact .inl rfl
    · dsimp only
      split_ifs <;> exact .inl rfl

/-! ## The cache -/

/-- The second cache lacks entries of `cache₀` at most. -/
def Lacks (cache₀ cache cache' : ResultCache) : Prop :=
  ∀ locale, cache' locale = cache locale ∨ cache' locale = none ∧ cache locale = cache₀ locale

variable {cache₀ : ResultCache}

theorem Lacks.update {cache cache' : ResultCache} (h : Lacks cache₀ cache cache') (locale : UInt8)
    (entry : Option CachedResult) :
    Lacks cache₀ (Function.update cache locale entry) (Function.update cache' locale entry) := by
  intro locale'
  by_cases heq : locale' = locale
  · left
    rw [heq, Function.update_self, Function.update_self]
  · rw [Function.update_of_ne heq, Function.update_of_ne heq]
    exact h locale'

/-- A lookup that takes no entry of `cache₀` finds the same in both. -/
theorem Lacks.getCachedResult {cache cache' : ResultCache} (h : Lacks cache₀ cache cache') (args : LocaleTopArgs)
    (now : UInt32)
    (hun : (getCachedResult cache args now).1 ≠ [] → cache args.locale ≠ cache₀ args.locale) :
    (getCachedResult cache' args now).1 = (getCachedResult cache args now).1 ∧
      Lacks cache₀ (getCachedResult cache args now).2 (getCachedResult cache' args now).2 := by
  rcases h args.locale with heq | ⟨hnone, hold⟩
  · -- the same entry is looked up, so the lookup takes the same branches
    unfold DealsServer.getCachedResult
    rw [heq]
    by_cases hdated : args.dated = true
    · rw [if_pos hdated, if_pos hdated]
      exact ⟨rfl, h⟩
    rw [if_neg hdated, if_neg hdated]
    rcases cache args.locale with _ | c
    · exact ⟨rfl, h⟩
    dsimp only
    by_cases hexpired : c.isExpired now = true
    · rw [if_pos hexpired, if_pos hexpired]
      exact ⟨rfl, h.update args.locale none⟩
    rw [if_neg hexpired, if_neg hexpired]
    rcases args.limit with _ | limit
    · exact ⟨rfl, h⟩
    dsimp only
    by_cases hshort : c.value.length < limit.toNat
    · rw [if_pos hshort, if_pos hshort]
      exact ⟨rfl, h⟩
    · rw [if_neg hshort, if_neg hshort]
      exact ⟨rfl, h⟩
  · -- the entry is one of `cache₀`, so the lookup does not take it; it may erase it
    have hmiss : (DealsServer.getCachedResult cache args now).1 = [] := by
      by_contra hfound
      exact hun hfound hold
    have hother : DealsServer.getCachedResult cache' args now = ([], cache') := by
      unfold DealsServer.getCachedResult
      rw [hnone]
      split_ifs <;> rfl
    rw [hmiss, hother]
    refine ⟨rfl, fun locale => ?_⟩
    rcases getCachedResult_erases cache args now locale with hsame | ⟨rfl, hgone⟩
    · rw [hsame]
      exact h locale
    · rw [hgone]
      exact .inl hnone

theorem Lacks.save {cache cache' : ResultCache} (h : Lacks cache₀ cache cache') (args : LocaleTopArgs)
    (result : List DstInfo) (now : UInt32) :
    Lacks cache₀ (saveResultToCache cache args result now) (saveResultToCache cache' args result now) := by
  unfold saveResultToCache
  split_ifs
  · exact h
  · exact h.update args.locale _

/-! ## Databases -/

/-- The tables are alike, and the second cache lacks entries of `cache₀` at most. -/
structure AlikeDb (cache₀ : ResultCache) (db db' : Database) : Prop where
  index : Alike db.indexView db'.indexView
  data : Alike db.dataView db'.dataView
  dst : Alike db.dbDst db'.dbDst
  cache : Lacks cache₀ db.resultCache db'.resultCache

/-- A request does the same on both. -/
def SameAnswer {β : Type} (cache₀ : ResultCache) (x x' : β × Database) : Prop :=
  x'.1 = x.1 ∧ AlikeDb cache₀ x.2 x'.2

variable {db db' : Database}

theorem SameAnswer.cases {β : Type} {x x' : β × Database} (h : SameAnswer cache₀ x x') :
    ∃ b db db', x = (b, db) ∧ x' = (b, db') ∧ AlikeDb cache₀ db db' :=
  ⟨x.1, x.2, x'.2, rfl, Prod.ext h.1 rfl, h.2⟩

/-- An answer made of the result. -/
theorem SameAnswer.respond {β γ : Type} (f : β → γ) {x x' : β × Database} (h : SameAnswer cache₀ x x') :
    SameAnswer cache₀ (f x.1, x.2) (f x'.1, x'.2) :=
  ⟨congrArg f h.1, h.2⟩

namespace AlikeDb

theorem globalExpireAt (h : AlikeDb cache₀ db db') : db'.globalExpireAt = db.globalExpireAt := h.index.globalExpireAt

theorem setIndex (h : AlikeDb cache₀ db db') {v v' : View DealInfo} (hv : Alike v v') :
    AlikeDb cache₀ (db.setIndex v) (db'.setIndex v') := by
  refine ⟨hv, ?_, h.dst, h.cache⟩
  have hdata := h.data.setGlobal v.globalExpireAt
  unfold Database.setIndex
  rw [hv.globalExpireAt]
  exact hdata

theorem setData (h : AlikeDb cache₀ db db') {v v' : View UInt8} (hv : Alike v v') :
    AlikeDb cache₀ (db.setData v) (db'.setData v') := by
  refine ⟨?_, hv, h.dst, h.cache⟩
  have hindex := h.index.setGlobal v.globalExpireAt
  unfold Database.setData
  rw [hv.globalExpireAt]
  exact hindex

/-! ## Adding a deal -/

theorem addDeal (h : AlikeDb cache₀ db db') (w : World) (p : AddParams) (body : Bytes) :
    SameAnswer cache₀ (db.addDeal w p body) (db'.addDeal w p body) := by
  unfold Database.addDeal
  obtain ⟨place, v, v', hl, hr, hv⟩ :=
    (h.data.addRecord dealDataTable w.data (body.take (body.length % 2 ^ 32)) 0).cases
  rw [hl, hr]
  cases place with
  | error err => exact ⟨rfl, h.setData hv⟩
  | ok place =>
    dsimp only
    obtain ⟨res, u, u', hl, hr, hu⟩ := ((h.setData hv).index.addRecord dealInfoTable w.index
      [dealRecord w.stray w.timestampClock.toUInt32 place p] 0).cases
    rw [hl, hr]
    cases res with
    | error err => exact ⟨rfl, (h.setData hv).setIndex hu⟩
    | ok _ => exact ⟨rfl, (h.setData hv).setIndex hu⟩

theorem add (h : AlikeDb cache₀ db db') (w : World) (p : AddParams) (body : Bytes) :
    SameAnswer cache₀ (db.add w p body) (db'.add w p body) := by
  unfold Database.add
  obtain ⟨res, db₁, db₁', hl, hr, h₁⟩ := (h.addDeal w p body).cases
  rw [hl, hr]
  cases res with
  | error err => exact ⟨rfl, h₁⟩
  | ok _ =>
    dsimp only
    unfold Database.addDestination
    obtain ⟨res, v, v', hl, hr, hv⟩ :=
      (h₁.dst.addRecord topDstTable w.dst [⟨p.locale, p.destination, p.departureDate.code⟩] 0).cases
    rw [hl, hr]
    cases res with
    | error err => exact ⟨rfl, h₁.index, h₁.data, hv, h₁.cache⟩
    | ok _ => exact ⟨rfl, h₁.index, h₁.data, hv, h₁.cache⟩

/-! ## Searches -/

theorem fillLoop (opens : Bytes → OpenResult) (deals : List DealInfo) {v v' : View UInt8} (h : Alike v v') :
    SameOutcome (Database.fillLoop opens deals v) (Database.fillLoop opens deals v') := by
  induction deals generalizing v v' with
  | nil => exact ⟨rfl, h⟩
  | cons deal rest ih =>
    unfold Database.fillLoop
    obtain ⟨data, u, u', hl, hr, hu⟩ := (h.getElementData ⟨deal.pageName, deal.index, deal.size⟩ opens).cases
    rw [hl, hr]
    cases data with
    | error err => exact ⟨rfl, hu⟩
    | ok data =>
      dsimp only
      obtain ⟨result, t, t', hl, hr, ht⟩ := (ih hu).cases
      rw [hl, hr]
      cases result with
      | error err => exact ⟨rfl, ht⟩
      | ok result => exact ⟨rfl, ht⟩

theorem execute (h : AlikeDb cache₀ db db') (agg : Aggregation) (w : World) (q : SearchQuery) :
    SameAnswer cache₀ (db.execute agg w q) (db'.execute agg w q) := by
  unfold Database.execute
  rcases agg.preSearch { q with groupByReturnDate := false } with e | q'
  · exact ⟨rfl, h⟩
  dsimp only
  obtain ⟨records, v, v', hl, hr, hv⟩ := (h.index.processRecords dealInfoTable w.index).cases
  rw [hl, hr, h.globalExpireAt]
  exact ⟨rfl, h.setIndex hv⟩

theorem searchFor (h : AlikeDb cache₀ db db') (agg : Aggregation) (w : World) (p : TopParams) :
    SameAnswer cache₀ (db.searchFor agg w p) (db'.searchFor agg w p) := by
  unfold Database.searchFor
  rcases buildQuery w.memory w.lifetimeClock.toUInt32 p with e | q
  · exact ⟨rfl, h⟩
  dsimp only
  obtain ⟨deals, db₁, db₁', hl, hr, h₁⟩ := (h.execute agg w q).cases
  rw [hl, hr]
  cases deals with
  | error e => exact ⟨rfl, h₁⟩
  | ok deals =>
    dsimp only
    obtain ⟨result, v, v', hl, hr, hv⟩ := (fillLoop w.data.opens deals h₁.data).cases
    rw [hl, hr]
    exact ⟨rfl, h₁.setData hv⟩

theorem getLocaleTop (h : AlikeDb cache₀ db db') (w : World) (args : LocaleTopArgs)
    (hun : (getCachedResult db.resultCache args w.localeTop.lookupClock).1 ≠ [] →
      db.resultCache args.locale ≠ cache₀ args.locale) :
    SameAnswer cache₀ (db.getLocaleTop w args) (db'.getLocaleTop w args) := by
  obtain ⟨hfound, hcache⟩ := h.cache.getCachedResult args w.localeTop.lookupClock hun
  unfold Database.getLocaleTop
  rcases hl : getCachedResult db.resultCache args w.localeTop.lookupClock with ⟨cached, cache⟩
  rcases hr : getCachedResult db'.resultCache args w.localeTop.lookupClock with ⟨cached', cache'⟩
  rw [hl, hr] at hfound hcache
  dsimp only at hfound hcache ⊢
  subst hfound
  by_cases htaken : cached'.length > 0
  · rw [if_pos htaken, if_pos htaken]
    exact ⟨rfl, h.index, h.data, h.dst, hcache⟩
  rw [if_neg htaken, if_neg htaken]
  rcases topDstQuery w.localeTop.memory args with e | q
  · exact ⟨rfl, h.index, h.data, h.dst, hcache⟩
  dsimp only
  obtain ⟨records, v, v', hl, hr, hv⟩ := (h.dst.processRecords topDstTable w.dst).cases
  rw [hl, hr]
  cases records with
  | error err => exact ⟨rfl, h.index, h.data, hv, hcache⟩
  | ok records => exact ⟨rfl, h.index, h.data, hv, hcache.save args _ _⟩

theorem getTop (h : AlikeDb cache₀ db db') (w : World) (params : ObjectMap)
    (hun : Uncached cache₀ db (w, .getTop params)) :
    SameAnswer cache₀ (db.getTop w params) (db'.getTop w params) := by
  unfold Uncached Request.localeTopArgs at hun
  unfold Database.getTop
  dsimp only at hun
  rcases hread : TopParams.read params with e | p
  · exact ⟨rfl, h⟩
  rw [hread] at hun
  dsimp only at hun ⊢
  by_cases hbad : p.badDates = true
  · rw [if_pos hbad, if_pos hbad]
    exact ⟨rfl, h⟩
  rw [if_neg hbad, if_neg hbad]
  by_cases hadd : p.addLocaleTop = some true
  swap
  · rw [if_neg hadd, if_neg hadd]
    exact h.searchFor p.aggregation w p
  rw [if_pos hadd, if_pos hadd]
  rw [if_pos ⟨by simpa using hbad, hadd⟩] at hun
  rcases hlocale : p.locale with _ | locale
  · exact ⟨rfl, h⟩
  rw [hlocale] at hun
  dsimp only
  obtain ⟨result, db₁, db₁', hl, hr, h₁⟩ :=
    (h.getLocaleTop w ⟨locale, p.departureDateFrom, p.departureDateTo, p.dealsLimit⟩ (hun _ rfl)).cases
  rw [hl, hr]
  cases result with
  | error e => exact ⟨rfl, h₁⟩
  | ok result =>
    dsimp only
    rcases (result.map DstInfo.destination).foldlM IATACodes.addCode p.destinations with e | destinations
    · exact ⟨rfl, h₁⟩
    · exact h₁.searchFor _ w _

theorem getDestiantionsTop (h : AlikeDb cache₀ db db') (w : World) (params : ObjectMap)
    (hun : Uncached cache₀ db (w, .getDestiantionsTop params)) :
    SameAnswer cache₀ (db.getDestiantionsTop w params) (db'.getDestiantionsTop w params) := by
  unfold Uncached Request.localeTopArgs at hun
  unfold Database.getDestiantionsTop
  rcases hargs : Database.readLocaleTopArgs params with e | args
  · exact ⟨rfl, h⟩
  · dsimp only at hun
    rw [hargs] at hun
    exact h.getLocaleTop w args (hun args rfl)

theorem records (h : AlikeDb cache₀ db db') (w : World) : SameAnswer cache₀ (db.records w) (db'.records w) := by
  unfold Database.records
  obtain ⟨records, v, v', hl, hr, hv⟩ := (h.index.processRecords dealInfoTable w.index).cases
  rw [hl, hr]
  exact ⟨rfl, h.setIndex hv⟩

/-! ## Clearing -/

theorem truncate (h : AlikeDb cache₀ db db') (w : World) : SameAnswer cache₀ (db.truncate w) (db'.truncate w) := by
  unfold Database.truncate
  obtain ⟨err, v, v', hl, hr, hv⟩ := (h.data.cleanup dealDataTable w.data).cases
  rw [hl, hr]
  cases err with
  | some err => exact ⟨rfl, h.setData hv⟩
  | none =>
    dsimp only
    obtain ⟨err, u, u', hl, hr, hu⟩ := ((h.setData hv).index.cleanup dealInfoTable w.index).cases
    rw [hl, hr]
    cases err with
    | some err => exact ⟨rfl, (h.setData hv).setIndex hu⟩
    | none => exact ⟨rfl, (h.setData hv).setIndex hu⟩

theorem clear (h : AlikeDb cache₀ db db') (w : World) : SameAnswer cache₀ (db.clear w) (db'.clear w) := by
  unfold Database.clear
  obtain ⟨res, db₁, db₁', hl, hr, h₁⟩ := (h.truncate w).cases
  rw [hl, hr]
  cases res with
  | error err => exact ⟨rfl, h₁⟩
  | ok _ =>
    dsimp only
    unfold Database.truncateDst
    obtain ⟨err, v, v', hl, hr, hv⟩ := (h₁.dst.cleanup topDstTable w.dst).cases
    rw [hl, hr]
    cases err with
    | some err => exact ⟨rfl, h₁.index, h₁.data, hv, h₁.cache⟩
    | none => exact ⟨rfl, h₁.index, h₁.data, hv, h₁.cache⟩

/-! ## Requests -/

theorem getUniqueRoutesDeals (h : AlikeDb cache₀ db db') (w : World) :
    SameAnswer cache₀ (db.getUniqueRoutesDeals w) (db'.getUniqueRoutesDeals w) := by
  unfold Database.getUniqueRoutesDeals
  obtain ⟨res, db₁, db₁', hl, hr, h₁⟩ := (h.records w).cases
  rw [hl, hr]
  exact ⟨rfl, h₁⟩

theorem stats (h : AlikeDb cache₀ db db') (w : World) : SameAnswer cache₀ (db.stats w) (db'.stats w) := by
  unfold Database.stats
  obtain ⟨res, db₁, db₁', hl, hr, h₁⟩ := (h.records w).cases
  rw [hl, hr]
  exact ⟨rfl, h₁⟩

end AlikeDb

/-! ## Requests -/

section Answers

variable (db : Database) (w : World)

theorem serve_getTop (params : ObjectMap) : db.serve w (.getTop params) =
    ((db.getTop w params).1.map .deals, (db.getTop w params).2) := by
  rw [Database.serve]

theorem serve_getUniqueRoutes : db.serve w .getUniqueRoutes =
    ((db.getUniqueRoutesDeals w).1.map .routes, (db.getUniqueRoutesDeals w).2) := by
  rw [Database.serve]

theorem serve_getStats : db.serve w .getStats = ((db.stats w).1.map .stats, (db.stats w).2) := by
  rw [Database.serve]

theorem serve_getDestiantionsTop (params : ObjectMap) : db.serve w (.getDestiantionsTop params) =
    ((db.getDestiantionsTop w params).1.map .destinations, (db.getDestiantionsTop w params).2) := by
  rw [Database.serve]

theorem serve_clear : db.serve w .clear =
    (((db.clear w).1.mapError fun err => err.fault.thrown).map fun _ => .cleared, (db.clear w).2) := by
  rw [Database.serve]

end Answers

theorem AlikeDb.serveAddDeal (h : AlikeDb cache₀ db db') (w : World) (params : ObjectMap) (body : Bytes) :
    SameAnswer cache₀ (db.serve w (.addDeal params body)) (db'.serve w (.addDeal params body)) := by
  unfold Database.serve
  dsimp only
  rcases AddParams.parse params with e | p
  · exact ⟨rfl, h⟩
  dsimp only
  obtain ⟨res, db₁, db₁', hl, hr, h₁⟩ := (h.add w p body).cases
  rw [hl, hr]
  exact ⟨rfl, h₁⟩

/-- **A request is answered the same on both**, unless it takes a list that the second cache may lack. -/
theorem AlikeDb.serve (h : AlikeDb cache₀ db db') (a : World × Request) (hun : Uncached cache₀ db a) :
    SameAnswer cache₀ (db.serve a.1 a.2) (db'.serve a.1 a.2) := by
  obtain ⟨w, request⟩ := a
  cases request with
  | addDeal params body => exact h.serveAddDeal w params body
  | getTop params =>
    rw [serve_getTop, serve_getTop]
    exact (h.getTop w params hun).respond (Except.map Answer.deals)
  | getUniqueRoutes =>
    rw [serve_getUniqueRoutes, serve_getUniqueRoutes]
    exact (h.getUniqueRoutesDeals w).respond (Except.map Answer.routes)
  | getStats =>
    rw [serve_getStats, serve_getStats]
    exact (h.stats w).respond (Except.map Answer.stats)
  | getDestiantionsTop params =>
    rw [serve_getDestiantionsTop, serve_getDestiantionsTop]
    exact (h.getDestiantionsTop w params hun).respond (Except.map Answer.destinations)
  | clear =>
    rw [serve_clear, serve_clear]
    exact (h.clear w).respond fun result => (result.mapError fun err => err.fault.thrown).map fun _ => Answer.cleared

end DealsServer
