import DealsServer.Lib.Run
import DealsServer.Lib.Selection
import DealsServer.Proof.BuildQuery
import DealsServer.Spec.TopDestinations

/-!
# The cache of top destinations

* `transparent_iff`: over any calls of `getLocaleTop` on one table, each call returns what a search would return,
  up to ties, exactly if every call without dates and limit that finds a cached list finds one as long as its own
  would be.
* `limited_then_unlimited`: after a call with the limit 1, a call without limit returns one destination.

A cached list has the first counters of its locale, cut at the limit of the call that stored it (`CacheSound`). A
call with a limit of its own takes it only if it is long enough.
-/

namespace DealsServer

open StateMachine Selection

/-! ## Counters -/

/-- The counters of a list of records. -/
def countersOf (records : List DstRecord) : Counters :=
  records.foldl (fun s e => s.count e.destination) Counters.empty

/-- The record is counted by a call. -/
def LocaleTopArgs.counts (args : LocaleTopArgs) (e : DstRecord) : Bool :=
  args.locale = e.locale ∧ (args.dated = true →
    (SearchQuery.dateInterval args.departureDateFrom args.departureDateTo).dateFrom ≤ e.departureDate ∧
      e.departureDate ≤ (SearchQuery.dateInterval args.departureDateFrom args.departureDateTo).dateTo)

/-- All destinations that a call counts. -/
def counted (args : LocaleTopArgs) (records : List DstRecord) : List DstInfo :=
  let s := countersOf (records.filter args.counts)
  s.keys.map fun k => ⟨k, s.counter k⟩

/-- The limit of a call. -/
def LocaleTopArgs.limitValue (args : LocaleTopArgs) : ℕ := (args.limit.map UInt32.toNat).getD 20

theorem countersOf_keys (records : List DstRecord) :
    (countersOf records).keys.Nodup ∧ ∀ k, k ∈ (countersOf records).keys ↔ k ∈ records.map DstRecord.destination := by
  induction records using List.reverseRecOn with
  | nil => exact ⟨List.nodup_nil, fun k => Iff.rfl⟩
  | append_singleton records e ih =>
    have hstep : countersOf (records ++ [e]) = (countersOf records).count e.destination := by simp [countersOf]
    rw [hstep]
    simp only [Counters.count]
    constructor
    · split_ifs with hmem
      · exact ih.1
      · refine List.nodup_append.2 ⟨ih.1, List.nodup_singleton _, fun a ha b hb hab => ?_⟩
        rw [List.mem_singleton] at hb
        exact hmem (hb ▸ hab ▸ ha)
    · intro k
      rw [List.map_append, List.mem_append, ← ih.2]
      split_ifs with hmem
      · refine ⟨.inl, fun h => h.elim id fun h => ?_⟩
        rw [List.map_singleton, List.mem_singleton] at h
        exact h ▸ hmem
      · rw [List.mem_append]
        rfl

/-- There are as many counters as destinations. -/
theorem counted_length (args : LocaleTopArgs) (records : List DstRecord) :
    (counted args records).length = ((records.filter args.counts).map DstRecord.destination).toFinset.card := by
  obtain ⟨hnodup, hmem⟩ := countersOf_keys (records.filter args.counts)
  have hset : ((records.filter args.counts).map DstRecord.destination).toFinset =
      (countersOf (records.filter args.counts)).keys.toFinset := by
    ext k
    rw [List.mem_toFinset, List.mem_toFinset, hmem]
  rw [hset, List.toFinset_card_of_nodup hnodup]
  simp [counted]

/-! ## Searches -/

/-- The query of a call. -/
def topDstQueryOf (u : Uninit) (args : LocaleTopArgs) : SearchQuery :=
  { SearchQuery.init u with
    filterLocale := true
    localeValue := args.locale
    filterDepartureDate := args.dated
    departureDateValues := if args.dated then
      SearchQuery.dateInterval args.departureDateFrom args.departureDateTo else u.departureDateValues
    filterResultLimit := (args.limit.map (·.toUInt16)).getD 20 }

/-- The checks of the setters. -/
def checkTop (args : LocaleTopArgs) : Except Thrown Unit := do
  checkDates "departure_dates departure_date_from > departure_date_to\n" args.departureDateFrom args.departureDateTo
  checkLimit args.limit

theorem topDstQuery_eq (u : Uninit) (args : LocaleTopArgs) :
    topDstQuery u args = (checkTop args).map fun _ => topDstQueryOf u args := by
  unfold topDstQuery checkTop
  dsimp only
  rw [SearchQuery.departureDates_eq]
  rcases checkDates "departure_dates departure_date_from > departure_date_to\n" args.departureDateFrom
    args.departureDateTo with e | ⟨⟩
  · rfl
  simp only [Except.map, bind, Except.bind, SearchQuery.resultLimit_eq]
  rcases checkLimit args.limit with e | ⟨⟩ <;> rfl

theorem counts_iff (u : Uninit) (args : LocaleTopArgs) (e : DstRecord) :
    args.counts e = true ↔ args.locale = e.locale ∧ ¬ ((topDstQueryOf u args).filterDepartureDate = true ∧
      (e.departureDate < (topDstQueryOf u args).departureDateValues.dateFrom ∨
        e.departureDate > (topDstQueryOf u args).departureDateValues.dateTo)) := by
  rw [LocaleTopArgs.counts, decide_eq_true_eq]
  apply and_congr_right
  intro _
  rw [not_and, not_outside32]
  apply imp_congr_right
  intro hdated
  have hvalues : (topDstQueryOf u args).departureDateValues =
      SearchQuery.dateInterval args.departureDateFrom args.departureDateTo := if_pos hdated
  rw [hvalues]

/-- The query counts the records that the call counts. -/
theorem foldl_dstProcessElement (u : Uninit) (args : LocaleTopArgs) (records : List DstRecord) :
    records.foldl (dstProcessElement (topDstQueryOf u args)) Counters.empty =
      countersOf (records.filter args.counts) := by
  have hstep (s : Counters) (e : DstRecord) : dstProcessElement (topDstQueryOf u args) s e =
      if args.counts e then s.count e.destination else s := by
    unfold dstProcessElement
    by_cases hlocale : args.locale = e.locale
    · rw [if_neg fun h => h.2 hlocale]
      split_ifs with hdate hcounts hcounts
      · exact absurd hdate ((counts_iff u args e).1 hcounts).2
      · rfl
      · rfl
      · exact absurd ((counts_iff u args e).2 ⟨hlocale, hdate⟩) hcounts
    · rw [if_pos ⟨rfl, hlocale⟩, if_neg fun h => hlocale ((counts_iff u args e).1 h).1]
  rw [countersOf, List.foldl_filter]
  congr 1
  funext s e
  exact hstep s e

theorem limitValue_le {args : LocaleTopArgs} (h : checkLimit args.limit = .ok ()) : args.limitValue ≤ 367 := by
  unfold LocaleTopArgs.limitValue
  rcases hlimit : args.limit with _ | v
  · simp
  · rw [hlimit] at h
    exact UInt32.le_iff_toNat_le.1 (checkLimit_some.1 h).2

/-- By counters, the largest first. -/
def ByCounter (a b : DstInfo) : Prop := b.counter.toNat ≤ a.counter.toNat

theorem topDstExec_topOf (u : Uninit) (args : LocaleTopArgs) (hlimit : checkLimit args.limit = .ok ())
    {order : List UInt32 → List UInt32} (horder : ∀ l, (order l).Perm l) (records : List DstRecord) :
    TopOf ByCounter (counted args records) args.limitValue (topDstExec (topDstQueryOf u args) order records) := by
  unfold topDstExec
  rw [foldl_dstProcessElement]
  have hvalue : (topDstQueryOf u args).filterResultLimit.toNat = args.limitValue := checkLimit_toNat hlimit
  rw [hvalue]
  have hle : ∀ a b : DstInfo, (!(decide (b.counter > a.counter))) = true ↔ ByCounter a b := by
    intro a b
    rw [Bool.not_eq_true', decide_eq_false_iff_not, ByCounter, gt_iff_lt, UInt32.lt_iff_toNat_lt, not_lt]
  apply topOf_mergeSort (fun a b => (hle a b).1)
  · intro a b c hab hbc
    exact (hle a c).2 (le_trans ((hle b c).1 hbc) ((hle a b).1 hab))
  · intro a b
    rw [Bool.or_eq_true, hle, hle]
    exact le_total _ _
  · exact (horder _).map _

/-- **What a search does**: it fails whatever it meets, or it returns the first counters. -/
theorem searchLocaleTop_cases (records : Except StorageFault (List DstRecord)) (args : LocaleTopArgs) :
    ((args.dated = true ∨ checkLimit args.limit ≠ .ok () ∨ ∃ fault, records = .error fault) ∧
      ∃ e, ∀ u order, searchLocaleTop u order records args = .error e) ∨
    ∃ rs, records = .ok rs ∧ checkLimit args.limit = .ok () ∧ ∀ u order, (∀ l, (order l).Perm l) →
      ∃ result, searchLocaleTop u order records args = .ok result ∧
        TopOf ByCounter (counted args rs) args.limitValue result := by
  -- the checks come first, then the records, and the counting cannot fail
  have hsearch (u : Uninit) (order : List UInt32 → List UInt32) : searchLocaleTop u order records args =
      (checkTop args >>= fun _ => records.mapError StorageFault.thrown).map
        (topDstExec (topDstQueryOf u args) order) := by
    unfold searchLocaleTop
    rw [topDstQuery_eq]
    rcases checkTop args with e | ⟨⟩
    · rfl
    · rcases records with fault | rs <;> rfl
  rcases hcheck : checkTop args with e | ⟨⟩
  · refine .inl ⟨?_, e, fun u order => by rw [hsearch, hcheck]; rfl⟩
    by_cases hdated : args.dated = true
    · exact .inl hdated
    · refine .inr (.inl fun hlimit => ?_)
      have hdates : checkDates "departure_dates departure_date_from > departure_date_to\n" args.departureDateFrom
          args.departureDateTo = .ok () := if_neg fun h => hdated h.1
      rw [checkTop, hdates, hlimit] at hcheck
      cases hcheck
  · rcases hrecords : records with fault | rs
    · refine .inl ⟨.inr (.inr ⟨fault, rfl⟩), fault.thrown, fun u order => ?_⟩
      rw [← hrecords, hsearch, hcheck, hrecords]
      rfl
    · have hlimit : checkLimit args.limit = .ok () := by
        unfold checkTop at hcheck
        rcases hdates : checkDates "departure_dates departure_date_from > departure_date_to\n" args.departureDateFrom
          args.departureDateTo with e | ⟨⟩
        · rw [hdates] at hcheck
          cases hcheck
        · rw [hdates] at hcheck
          exact hcheck
      refine .inr ⟨rs, rfl, hlimit, fun u order horder => ⟨_, ?_, topDstExec_topOf u args hlimit horder rs⟩⟩
      rw [← hrecords, hsearch, hcheck, hrecords]
      rfl

/-! ## The cache -/

/-- A call without dates and limit. -/
def LocaleTopArgs.plain (locale : UInt8) : LocaleTopArgs := ⟨locale, none, none, none⟩

theorem counted_plain {args : LocaleTopArgs} (h : args.dated = false) (records : List DstRecord) :
    counted args records = counted (.plain args.locale) records := by
  have hcounts : args.counts = (LocaleTopArgs.plain args.locale).counts := by
    funext e
    have hplain : (LocaleTopArgs.plain args.locale).dated = false := rfl
    rw [Bool.eq_iff_iff]
    simp only [LocaleTopArgs.counts, decide_eq_true_eq, h, hplain]
    exact ⟨fun hc => ⟨hc.1, nofun⟩, fun hc => ⟨hc.1, nofun⟩⟩
  unfold counted
  rw [hcounts]

/-- A list in the cache has the first counters of its locale. -/
structure CachedTop (records : Except StorageFault (List DstRecord)) (locale : UInt8) (c : CachedResult) : Prop where
  nonempty : c.value ≠ []
  length_le : c.value.length ≤ 367
  top : ∃ rs n, records = .ok rs ∧ TopOf ByCounter (counted (.plain locale) rs) n c.value

/-- All lists in the cache do. -/
def CacheSound (records : Except StorageFault (List DstRecord)) (cache : ResultCache) : Prop :=
  ∀ locale c, cache locale = some c → CachedTop records locale c

/-- The call finds a cached list that is long enough for it. -/
structure Hits (cache : ResultCache) (w : LocaleTopWorld) (args : LocaleTopArgs) (c : CachedResult) : Prop where
  dated : args.dated = false
  found : cache args.locale = some c
  live : c.isExpired w.lookupClock = false
  enough : ∀ v, args.limit = some v → v ≠ 0 ∧ v.toNat ≤ c.value.length

/-- Entries stay as they are or are erased. -/
def Erases (cache cache' : ResultCache) : Prop := ∀ locale c, cache' locale = some c → cache locale = some c

variable {records : Except StorageFault (List DstRecord)} {cache : ResultCache}

/-- **What the lookup does**: it takes the cached list, cut at the limit, or it finds nothing. -/
theorem getCachedResult_cases (cache : ResultCache) (w : LocaleTopWorld) (args : LocaleTopArgs) :
    (∃ c, Hits cache w args c ∧ getCachedResult cache args w.lookupClock =
      (c.value.take ((args.limit.map UInt32.toNat).getD c.value.length), cache)) ∨
    (∀ c, ¬ Hits cache w args c) ∧ ∃ cache', Erases cache cache' ∧
      getCachedResult cache args w.lookupClock = ([], cache') := by
  unfold getCachedResult
  by_cases hdated : args.dated = true
  · rw [if_pos hdated]
    refine .inr ⟨fun c h => ?_, cache, fun _ _ => id, rfl⟩
    rw [h.dated] at hdated
    cases hdated
  rw [if_neg hdated]
  have hdateless : args.dated = false := by simpa using hdated
  rcases hfound : cache args.locale with _ | c
  · refine .inr ⟨fun c h => ?_, cache, fun _ _ => id, rfl⟩
    have := h.found
    rw [hfound] at this
    cases this
  have hsame {c' : CachedResult} (h : Hits cache w args c') : c' = c := by
    have := h.found
    rw [hfound] at this
    exact (Option.some.inj this).symm
  dsimp only
  by_cases hexpired : c.isExpired w.lookupClock = true
  · rw [if_pos hexpired]
    refine .inr ⟨fun c' h => ?_, _, fun locale c' hc => ?_, rfl⟩
    · have hlive := h.live
      rw [hsame h, hexpired] at hlive
      cases hlive
    · by_cases heq : locale = args.locale
      · rw [heq, Function.update_self] at hc
        cases hc
      · rwa [Function.update_of_ne heq] at hc
  rw [if_neg hexpired]
  have hlive : c.isExpired w.lookupClock = false := by simpa using hexpired
  -- without a limit the whole list is taken
  rcases hlimit : args.limit with _ | v
  · refine .inl ⟨c, ⟨hdateless, hfound, hlive, fun v hv => ?_⟩, ?_⟩
    · rw [hlimit] at hv
      cases hv
    · simp
  dsimp only
  -- a list that is too short is left in the cache
  by_cases hshort : c.value.length < v.toNat
  · rw [if_pos hshort]
    refine .inr ⟨fun c' h => ?_, cache, fun _ _ => id, rfl⟩
    have henough := (h.enough v hlimit).2
    rw [hsame h] at henough
    omega
  rw [if_neg hshort]
  -- the limit 0 cuts the list to nothing, which the caller takes for a miss
  by_cases hzero : v = 0
  · refine .inr ⟨fun c' h => (h.enough v hlimit).1 hzero, cache, fun _ _ => id, ?_⟩
    rw [hzero]
    rfl
  · refine .inl ⟨c, ⟨hdateless, hfound, hlive, fun v' hv => ?_⟩, rfl⟩
    rw [hlimit] at hv
    cases hv
    exact ⟨hzero, not_lt.1 hshort⟩

/-- A cached list that is taken is not empty. -/
theorem Hits.length_pos (hs : CacheSound records cache) {w : LocaleTopWorld} {args : LocaleTopArgs} {c : CachedResult}
    (h : Hits cache w args c) : 0 < (c.value.take ((args.limit.map UInt32.toNat).getD c.value.length)).length := by
  have hpos := List.length_pos_iff.2 (hs _ _ h.found).nonempty
  rw [List.length_take]
  rcases hlimit : args.limit with _ | v
  · simpa using hpos
  · have hv : 0 < v.toNat := UInt32.pos_iff_ne_zero.2 (h.enough v hlimit).1
    simp only [Option.map_some, Option.getD_some]
    omega

/-- **What `getLocaleTop` does**: it takes the cached list, cut at its limit, or it searches. -/
theorem getLocaleTop_cases (hs : CacheSound records cache) (w : LocaleTopWorld) (args : LocaleTopArgs) :
    (∃ c, Hits cache w args c ∧ getLocaleTop cache w records args =
      (.ok (c.value.take ((args.limit.map UInt32.toNat).getD c.value.length)), cache)) ∨
    (∀ c, ¬ Hits cache w args c) ∧ ∃ cache', Erases cache cache' ∧
      ((∃ e, searchLocaleTop w.memory w.order records args = .error e ∧
          getLocaleTop cache w records args = (.error e, cache')) ∨
        ∃ result, searchLocaleTop w.memory w.order records args = .ok result ∧
          getLocaleTop cache w records args = (.ok result, saveResultToCache cache' args result w.saveClock)) := by
  unfold getLocaleTop
  obtain ⟨c, hhits, hget⟩ | ⟨hno, cache', herases, hget⟩ := getCachedResult_cases cache w args
  · left
    rw [hget]
    exact ⟨c, hhits, if_pos (hhits.length_pos hs)⟩
  · right
    rw [hget]
    refine ⟨hno, cache', herases, ?_⟩
    rcases searchLocaleTop w.memory w.order records args with e | result
    · exact .inl ⟨e, rfl, rfl⟩
    · exact .inr ⟨result, rfl, rfl⟩

theorem Erases.sound {cache' : ResultCache} (h : Erases cache cache') (hs : CacheSound records cache) :
    CacheSound records cache' := fun locale c hc => hs locale c (h locale c hc)

/-- The cache after a call. -/
def localeTopStep (records : Except StorageFault (List DstRecord)) (cache : ResultCache)
    (call : LocaleTopWorld × LocaleTopArgs) : ResultCache :=
  (getLocaleTop cache call.1 records call.2).2

/-- A search stores the first counters of its locale. -/
theorem saved_sound (hs : CacheSound records cache) (w : LocaleTopWorld) (args : LocaleTopArgs) {result : List DstInfo}
    (hresult : searchLocaleTop w.memory w.order records args = .ok result) :
    CacheSound records (saveResultToCache cache args result w.saveClock) := by
  unfold saveResultToCache
  -- nothing is saved of an empty result or of a request with dates
  split_ifs with hskip
  · exact hs
  push Not at hskip
  intro locale c hc
  by_cases heq : locale = args.locale
  swap
  · rw [Function.update_of_ne heq] at hc
    exact hs locale c hc
  rw [heq, Function.update_self] at hc
  cases hc
  obtain ⟨-, e, herror⟩ | ⟨rs, hrs, hlimit, hall⟩ := searchLocaleTop_cases records args
  · rw [herror] at hresult
    cases hresult
  obtain ⟨result', hresult', htop⟩ := hall w.memory w.order w.orderPerm
  rw [hresult] at hresult'
  cases hresult'
  have hdateless : args.dated = false := by simpa using hskip.2
  rw [counted_plain hdateless] at htop
  refine ⟨List.ne_nil_of_length_pos (Nat.pos_of_ne_zero hskip.1), ?_, ?_⟩
  · have hle := htop.length
    have hvalue := limitValue_le hlimit
    show result.length ≤ 367
    omega
  · rw [heq]
    exact ⟨rs, _, hrs, htop⟩

theorem localeTopStep_sound (hs : CacheSound records cache) (call : LocaleTopWorld × LocaleTopArgs) :
    CacheSound records (localeTopStep records cache call) := by
  unfold localeTopStep
  obtain ⟨c, -, hget⟩ | ⟨-, cache', herases, ⟨e, -, hget⟩ | ⟨result, hresult, hget⟩⟩ :=
    getLocaleTop_cases hs call.1 call.2
  · rw [hget]
    exact hs
  · rw [hget]
    exact herases.sound hs
  · rw [hget]
    exact saved_sound (herases.sound hs) call.1 call.2 hresult

/-! ## Transparency -/

/-- The list is what a search of the same call returns, up to ties. -/
structure SameTop (all fresh result : List DstInfo) : Prop where
  found : ∀ e ∈ result, e ∈ all
  counters : (result.map DstInfo.counter).Perm (fresh.map DstInfo.counter)
  above : ∀ e, (∃ f ∈ fresh, f.counter < e.counter) → (e ∈ result ↔ e ∈ fresh)

theorem TopOf.sameTop {all fresh result : List DstInfo} {n : ℕ} (h : TopOf ByCounter all n result)
    (hfresh : TopOf ByCounter all n fresh) : SameTop all fresh result := by
  refine ⟨fun e => h.mem, ?_, fun e ⟨f, hf, hlt⟩ => ?_⟩
  · have hscores : result.map (fun d => d.counter.toNat) = fresh.map (fun d => d.counter.toNat) := h.score_eq hfresh
    apply List.Perm.of_eq
    apply List.map_injective_iff.2 (fun a b => UInt32.toNat_inj.1)
    rw [List.map_map, List.map_map]
    exact hscores
  · exact TopOf.mem_iff (f := fun d => d.counter.toNat) h hfresh ⟨f, hf, UInt32.lt_iff_toNat_lt.1 hlt⟩

/-- The call returns what a search with its arguments returns, whatever the memory and order of that search. -/
def Transparent (records : Except StorageFault (List DstRecord)) (cache : ResultCache)
    (call : LocaleTopWorld × LocaleTopArgs) : Prop :=
  ∀ (u : Uninit) (order : List UInt32 → List UInt32), (∀ l, (order l).Perm l) →
    match searchLocaleTop u order records call.2 with
    | .error e => (getLocaleTop cache call.1 records call.2).1 = .error e
    | .ok fresh => ∃ rs result, records = .ok rs ∧ (getLocaleTop cache call.1 records call.2).1 = .ok result ∧
        SameTop (counted call.2 rs) fresh result

/-- A call without dates and limit that finds a cached list finds one as long as its own would be. -/
def CachedWhole (records : Except StorageFault (List DstRecord)) (cache : ResultCache)
    (call : LocaleTopWorld × LocaleTopArgs) : Prop :=
  call.2.dated = false → call.2.limit = none → ∀ c, cache call.2.locale = some c →
    c.isExpired call.1.lookupClock = false → ∀ rs, records = .ok rs →
      c.value.length = min 20 ((rs.filter call.2.counts).map DstRecord.destination).toFinset.card

/-- A call that takes a cached list. Only a list that was cut short can show, in a call without a limit. -/
theorem transparent_hit_iff (hs : CacheSound records cache) {call : LocaleTopWorld × LocaleTopArgs} {c : CachedResult}
    (hhits : Hits cache call.1 call.2 c)
    (hget : (getLocaleTop cache call.1 records call.2).1 =
      .ok (c.value.take ((call.2.limit.map UInt32.toNat).getD c.value.length))) :
    Transparent records cache call ↔ CachedWhole records cache call := by
  obtain ⟨hne, hle, rs, n, hrs, htop⟩ := hs _ _ hhits.found
  rw [← counted_plain hhits.dated] at htop
  have hlength := htop.length
  have hlimit : checkLimit call.2.limit = .ok () := by
    rcases hlimit : call.2.limit with _ | v
    · rfl
    · obtain ⟨hzero, henough⟩ := hhits.enough v hlimit
      refine checkLimit_some.2 ⟨UInt32.pos_iff_ne_zero.2 hzero, UInt32.le_iff_toNat_le.2 ?_⟩
      exact henough.trans hle
  -- the search that the cache has saved would not fail
  obtain ⟨hwhy, -⟩ | ⟨rs', hrs', -, hall⟩ := searchLocaleTop_cases records call.2
  · rcases hwhy with hdated | hbad | ⟨fault, hfault⟩
    · rw [hhits.dated] at hdated
      cases hdated
    · exact absurd hlimit hbad
    · rw [hfault] at hrs
      cases hrs
  rw [hrs] at hrs'
  cases hrs'
  have hsame : ∀ result, (getLocaleTop cache call.1 records call.2).1 = .ok result →
      TopOf ByCounter (counted call.2 rs) call.2.limitValue result → Transparent records cache call := by
    intro result hresult hresultTop u order horder
    obtain ⟨fresh, hfresh, hfreshTop⟩ := hall u order horder
    rw [hfresh]
    exact ⟨rs, result, hrs, hresult, TopOf.sameTop hresultTop hfreshTop⟩
  rcases hgiven : call.2.limit with _ | v
  · -- without a limit the whole list is the answer
    rw [hgiven] at hget
    have hvalue : call.2.limitValue = 20 := by rw [LocaleTopArgs.limitValue, hgiven]; rfl
    have hresult : (getLocaleTop cache call.1 records call.2).1 = .ok c.value := by
      rw [hget]
      simp
    constructor
    · intro htransparent _ _ c' hc' _ rs' hrs'
      rw [hrs] at hrs'
      cases hrs'
      rw [hhits.found] at hc'
      cases hc'
      obtain ⟨fresh, hfresh, hfreshTop⟩ := hall call.1.memory call.1.order call.1.orderPerm
      have hcall := htransparent call.1.memory call.1.order call.1.orderPerm
      rw [hfresh] at hcall
      obtain ⟨rs', result, -, hresult', hsametop⟩ := hcall
      rw [hresult] at hresult'
      cases hresult'
      have hlen := hsametop.counters.length_eq
      rw [List.length_map, List.length_map, hfreshTop.length, hvalue, counted_length] at hlen
      exact hlen
    · intro hwhole
      have hlen := hwhole hhits.dated hgiven c hhits.found hhits.live rs hrs
      rw [← counted_length] at hlen
      apply hsame c.value hresult
      rw [hvalue]
      exact htop.congr (by omega)
  · -- with a limit the list is long enough, and the first of it are the answer
    obtain ⟨-, henough⟩ := hhits.enough v hgiven
    have hvalue : call.2.limitValue = v.toNat := by rw [LocaleTopArgs.limitValue, hgiven]; rfl
    constructor
    · intro _ _ hnone
      rw [hgiven] at hnone
      cases hnone
    · intro _
      rw [hgiven] at hget
      apply hsame (c.value.take v.toNat)
      · rw [hget]
        rfl
      · rw [hvalue]
        exact htop.take (by omega)

/-- A call that finds no cached list is answered as without a cache. -/
theorem transparent_miss {call : LocaleTopWorld × LocaleTopArgs}
    (hsearch : (∃ e, searchLocaleTop call.1.memory call.1.order records call.2 = .error e ∧
        (getLocaleTop cache call.1 records call.2).1 = .error e) ∨
      ∃ result, searchLocaleTop call.1.memory call.1.order records call.2 = .ok result ∧
        (getLocaleTop cache call.1 records call.2).1 = .ok result) : Transparent records cache call := by
  intro u order horder
  obtain ⟨-, e, herror⟩ | ⟨rs, hrs, -, hall⟩ := searchLocaleTop_cases records call.2
  · rw [herror u order]
    obtain ⟨e', he', hget⟩ | ⟨result, hresult, -⟩ := hsearch
    · rw [herror] at he'
      cases he'
      exact hget
    · rw [herror] at hresult
      cases hresult
  · obtain ⟨fresh, hfresh, hfreshTop⟩ := hall u order horder
    obtain ⟨own, hown, hownTop⟩ := hall call.1.memory call.1.order call.1.orderPerm
    rw [hfresh]
    obtain ⟨e', he', -⟩ | ⟨result, hresult, hget⟩ := hsearch
    · rw [hown] at he'
      cases he'
    · rw [hown] at hresult
      cases hresult
      exact ⟨rs, own, hrs, hget, TopOf.sameTop hownTop hfreshTop⟩

/-- **One call.** -/
theorem transparent_call_iff (hs : CacheSound records cache) (call : LocaleTopWorld × LocaleTopArgs) :
    Transparent records cache call ↔ CachedWhole records cache call := by
  obtain ⟨c, hhits, hget⟩ | ⟨hno, cache', -, hsearch⟩ := getLocaleTop_cases hs call.1 call.2
  · exact transparent_hit_iff hs hhits (by rw [hget])
  · constructor
    · intro _ hdated hlimit c hc hlive
      refine absurd ⟨hdated, hc, hlive, fun v hv => ?_⟩ (hno c)
      rw [hlimit] at hv
      cases hv
    · intro _
      apply transparent_miss
      obtain ⟨e, he, hget⟩ | ⟨result, hresult, hget⟩ := hsearch
      · exact .inl ⟨e, he, by rw [hget]⟩
      · exact .inr ⟨result, hresult, by rw [hget]⟩

/-- The cache before any call is sound. -/
theorem cacheSound_empty (records : Except StorageFault (List DstRecord)) : CacheSound records fun _ => none := by
  intro locale c hc
  cases hc

/-- **The exact condition.** For every content of the table and every sequence of calls, each call returns what a
search with its arguments returns exactly if each call without dates and limit that finds a cached list finds one as
long as its own would be. -/
theorem transparent_iff (records : Except StorageFault (List DstRecord)) (calls : List (LocaleTopWorld × LocaleTopArgs)) :
    Always (localeTopStep records) (Transparent records) (fun _ => none) calls ↔
      Always (localeTopStep records) (CachedWhole records) (fun _ => none) calls := by
  apply always_iff (CacheSound records)
  · exact fun _ call hs => localeTopStep_sound hs call
  · exact fun _ call hs => transparent_call_iff hs call
  · exact cacheSound_empty records

/-! ## A list cut by an earlier limit -/

/-- A call at clock 100. -/
def quietCall : LocaleTopWorld where
  lookupClock := 100
  saveClock := 100
  memory := ⟨0, ⟨0, 0, 0⟩, ⟨0, 0, 0⟩, 0, 0, false, false, 0, 0, ⟨0, 0⟩, 0⟩
  order := id
  orderPerm := fun l => List.Perm.refl l

/-- Two destinations of one locale. -/
def tableOfTwo : List DstRecord := [⟨1, 10, 0⟩, ⟨1, 11, 0⟩]

/-- A call that asks for one destination. -/
def oneOf : LocaleTopArgs := ⟨1, none, none, some 1⟩

/-- The call with limit 1 stores a list of one destination. -/
theorem oneOf_stores : ∃ c, localeTopStep (.ok tableOfTwo) (fun _ => none) (quietCall, oneOf) 1 = some c ∧
    c.value.length = 1 ∧ c.isExpired 100 = false := by
  unfold localeTopStep
  obtain ⟨c, hhits, -⟩ | ⟨-, cache', -, ⟨e, he, -⟩ | ⟨result, hresult, hget⟩⟩ :=
    getLocaleTop_cases (cacheSound_empty (.ok tableOfTwo)) quietCall oneOf
  · cases hhits.found
  · have hok : (searchLocaleTop quietCall.memory quietCall.order (.ok tableOfTwo) oneOf).isOk = true := rfl
    rw [he] at hok
    cases hok
  · have htop : TopOf ByCounter (counted oneOf tableOfTwo) 1 result := by
      have hsearch : searchLocaleTop quietCall.memory quietCall.order (.ok tableOfTwo) oneOf =
          .ok (topDstExec (topDstQueryOf quietCall.memory oneOf) id tableOfTwo) := rfl
      rw [hresult] at hsearch
      cases hsearch
      exact topDstExec_topOf quietCall.memory oneOf rfl (fun l => List.Perm.refl l) tableOfTwo
    have hlength : result.length = 1 := by
      rw [htop.length, counted_length]
      decide
    rw [hget]
    refine ⟨CachedResult.new result 60 100, ?_, hlength, rfl⟩
    unfold saveResultToCache
    rw [if_neg (by rw [hlength]; decide)]
    show Function.update cache' 1 _ 1 = _
    exact Function.update_self _ _ _

/-- **A limit outlives its call.** Two destinations are counted; after a call with limit 1, a call of the same locale
without limit returns one destination. -/
theorem limited_then_unlimited : ¬ Always (localeTopStep (.ok tableOfTwo)) (Transparent (.ok tableOfTwo))
    (fun _ => none) [(quietCall, oneOf), (quietCall, .plain 1)] := by
  rintro ⟨-, hplain, -⟩
  obtain ⟨c, hc, hlength, hlive⟩ := oneOf_stores
  have hsound := localeTopStep_sound (cacheSound_empty (.ok tableOfTwo)) (quietCall, oneOf)
  have hwhole := (transparent_call_iff hsound (quietCall, .plain 1)).1 hplain rfl rfl c hc hlive tableOfTwo rfl
  rw [hlength] at hwhole
  revert hwhole
  decide

end DealsServer
