import DealsServer.Lib.Run
import DealsServer.Proof.Clearing
import DealsServer.Proof.KeptRecords
import DealsServer.Proof.Ranking
import DealsServer.Spec.Database

/-!
# Linked tables

A record of `db_index` tells where in `db_data` the body of the deal is. The tables expire on their own, and a search
leaves out the records whose bodies may be gone.

* `Linked.step`: what the calls of one process keep.
* `carriesPayload`: every deal is returned with the body it was added with, if no second passes between the insertion
  of a body and the timestamp of its record, or at most one and `db_data` never finds memory low.
* `late_timestamp`: otherwise a deal is returned with the body of another.
-/

namespace DealsServer

open StateMachine Decimal

/-! ## Calls of one process -/

/-- A call of `DealsDatabase`. Clocks that it does not come to read are taken to be in order as well. -/
inductive DealsCall
  | addDeal (w : World) (p : AddParams) (body : Bytes)
  | searchFor (agg : Aggregation) (w : World) (p : TopParams)

/-- The clocks of the call, in the order it reads them. -/
def DealsCall.clocks : DealsCall → List ℕ
  | .addDeal w _ _ => [w.data.releaseNow, w.data.now, w.timestampClock, w.index.releaseNow, w.index.now]
  | .searchFor _ w _ => [w.lifetimeClock, w.searchClock, w.index.releaseNow, w.index.now]

def DealsCall.world : DealsCall → World
  | .addDeal w _ _ => w
  | .searchFor _ w _ => w

/-- The record that `addDeal` leaves in `db_index`, if it does not fail. -/
def Database.added (db : Database) (w : World) (p : AddParams) (body : Bytes) : List DealInfo :=
  match (db.dataView.addRecord dealDataTable w.data (body.take (body.length % 2 ^ 32)) 0).1, (db.addDeal w p body).1 with
  | .ok place, .ok _ => [dealRecord w.stray w.timestampClock.toUInt32 place p]
  | _, _ => []

/-- The records whose bodies `searchFor` returns. -/
def Database.found (db : Database) (agg : Aggregation) (w : World) (p : TopParams) : Except Thrown (List DealInfo) :=
  match buildQuery w.memory w.lifetimeClock.toUInt32 p with
  | .error e => .error e
  | .ok q => (db.execute agg w q).1

/-- What a process has, the clock it has read last, and the records it has added with their bodies. -/
structure Session where
  db : Database
  clock : ℕ
  created : List (DealInfo × Bytes)

namespace Session

def init : Session := ⟨.init, 0, []⟩

def step (s : Session) : DealsCall → Session
  | .addDeal w p body =>
    ⟨(s.db.addDeal w p body).2, w.index.now, s.created ++ (s.db.added w p body).map fun info => (info, body)⟩
  | .searchFor agg w p => ⟨(s.db.searchFor agg w p).2, w.index.now, s.created⟩

/-- The clock does not go back and is far from its overflow, and all pages can be opened. -/
structure Timed (s : Session) (call : DealsCall) : Prop where
  ascending : (s.clock :: call.clocks).Pairwise (· ≤ ·)
  fits : ∀ t ∈ call.clocks, t + dealsExpires.toNat + removeExpiredPagesDelaySec < 2 ^ 32
  opens : ∀ name, call.world.index.opens name = .mapped ∧ call.world.data.opens name = .mapped

end Session

/-- The bytes are the body that the record was added with. -/
structure OwnBody (created : List (DealInfo × Bytes)) (deal : DealInfo) (data : Bytes) : Prop where
  added : ∃ body, (deal, body) ∈ created
  own : ∀ body, (deal, body) ∈ created → data = body

/-- Every deal that a search returns has the body it was added with. -/
def CarriesPayload (calls : List DealsCall) : Prop :=
  ∀ pre agg w p post, calls = pre ++ .searchFor agg w p :: post →
    ∀ result, ((run Session.step .init pre).db.searchFor agg w p).1 = .ok result →
      ∃ deals, (run Session.step .init pre).db.found agg w p = .ok deals ∧
        List.Forall₂ (OwnBody (run Session.step .init pre).created) deals result

/-- The timestamp is at most `lead` seconds later than the insertion of the body: none, or one if `db_data` does not
find memory low. The size of the body fits its word. -/
def DealsCall.Prompt (lead : ℕ) : DealsCall → Prop
  | .addDeal w _ body => body.length < 2 ^ 32 ∧ w.timestampClock ≤ w.data.now + lead ∧
      (lead = 0 ∨ lead = 1 ∧ w.data.memLow = false)
  | .searchFor _ _ _ => True

/-! ## Names of pages -/

/-- Names of nine letters and four digits fit. -/
theorem shortNames_of {cfg : TableConfig} (hname : cfg.tableName.length ≤ 9) (hmax : cfg.tableMaxPages ≤ 10000) :
    ShortNames cfg := by
  intro j hj
  have hdigits := (length_decimal_le_iff j (k := 4) (by decide)).2 (by omega)
  have hcolon : (str ":").length = 1 := rfl
  show (cfg.tableName ++ str ":" ++ decimal j).length ≤ 14
  rw [List.length_append, List.length_append]
  omega

theorem dealInfo_shortNames : ShortNames dealInfoTable := shortNames_of (by decide) (by decide)

theorem dealData_shortNames : ShortNames dealDataTable := shortNames_of (by decide) (by decide)

/-! ## One table -/

section Table

variable {α : Type} {cfg : TableConfig} {v v' : View α}

/-- The place is kept as long as a record with this timestamp is returned. -/
def Lasts (cfg : TableConfig) (lead clock : ℕ) (v : View α) (place : Location) (records : List α) (timestamp : ℕ) :
    Prop :=
  Kept cfg v place records (timestamp + dealsExpires.toNat - lead) ∨
    timestamp + dealsExpires.toNat ≤ max clock v.globalExpireAt

theorem Lasts.mono {lead clock clock' timestamp : ℕ} {place : Location} {records : List α}
    (h : Lasts cfg lead clock v place records timestamp) (hclock : clock ≤ clock') (hshared : v'.shared = v.shared)
    (hglobal : v.globalExpireAt ≤ v'.globalExpireAt) : Lasts cfg lead clock' v' place records timestamp := by
  rcases h with hk | hexpired
  · left
    unfold Kept at hk ⊢
    rwa [hshared]
  · exact .inr (hexpired.trans (max_le_max hclock hglobal))

/-- New records last if the timestamp is at most `lead` later. -/
theorem Placed.lasts {now clock lead timestamp lifetime : ℕ} {memLow : Bool} {records : List α}
    {r : Reservation} (h : Placed cfg v v' now memLow records lifetime r)
    (hlifetime : cfg.lifetime lifetime = dealsExpires.toNat) (hfits : now + dealsExpires.toNat < 2 ^ 32)
    (hlead : timestamp ≤ now + lead) :
    Lasts cfg lead clock v' ⟨cfg.pageName r.idx, r.start.toUInt32, records.length.toUInt32⟩ records timestamp := by
  have hpos : 0 < dealsExpires.toNat := by decide
  obtain ⟨idx, o, hname, hsize, hused, hexpires, hrest⟩ := h.kept (by omega) (by omega)
  exact .inl ⟨idx, o, hname, hsize, hused, by omega, hrest⟩

variable [Inhabited α]

/-- `global_expire_at` is only raised, and stays a word. -/
theorem Alone.addRecord_global (h : Alone cfg v) (hcur : Current v) (hshort : ShortNames cfg) {c : Calls}
    (hopens : ∀ name, c.opens name = .mapped) (records : List α) {lifetime : ℕ}
    (hearly : c.now + cfg.lifetime lifetime + removeExpiredPagesDelaySec < 2 ^ 32)
    (hglobal : v.globalExpireAt < 2 ^ 32) :
    v.globalExpireAt ≤ (v.addRecord cfg c records lifetime).2.globalExpireAt ∧
      (v.addRecord cfg c records lifetime).2.globalExpireAt < 2 ^ 32 := by
  obtain ⟨h₁, -, hleaves, -⟩ := h.release hcur hshort c hopens
  have hsame := hleaves.global
  obtain ⟨-, -, ⟨err, hadd⟩ | ⟨r, v', hadd, hplaced⟩⟩ := h.addRecord hcur hshort hopens records hearly
  · rw [hadd]
    exact ⟨hsame.ge, hsame.trans_lt hglobal⟩
  · obtain ⟨w, hr, -, heq⟩ := hplaced.reserves
    have hentry := h₁.early r.idx
    rw [hadd]
    dsimp only
    rw [heq]
    rcases hr.outcome with hcont | hrest
    · rw [hcont.global_eq]
      exact ⟨hsame.ge, hsame.trans_lt hglobal⟩
    · obtain ⟨-, -, -, -, hg⟩ | ⟨-, -, -, -, -, hg⟩ | ⟨-, -, -, -, hg⟩ := hrest.kind <;> rw [hg]
      · exact ⟨hsame.ge, hsame.trans_lt hglobal⟩
      · exact ⟨hsame.ge, hsame.trans_lt hglobal⟩
      · exact ⟨hsame.ge.trans (le_max_left _ _), max_lt (hsame.trans_lt hglobal) (by omega)⟩

/-- A place lasts when other records are added, unless low memory can take its last second. -/
theorem Lasts.addRecord {lead clock clock' timestamp : ℕ} {place : Location} {records : List α} (h : Alone cfg v)
    (hcur : Current v) (hshort : ShortNames cfg) {c : Calls} (hopens : ∀ name, c.opens name = .mapped) (more : List α)
    {lifetime : ℕ} (hearly : c.now + cfg.lifetime lifetime + removeExpiredPagesDelaySec < 2 ^ 32)
    (hglobal : v.globalExpireAt < 2 ^ 32) (hclock : clock ≤ clock') (hrelease : c.releaseNow ≤ clock')
    (hnow : c.now ≤ clock') (hlead : lead = 0 ∨ lead = 1 ∧ c.memLow = false)
    (hc : Lasts cfg lead clock v place records timestamp) :
    Lasts cfg lead clock' (v.addRecord cfg c more lifetime).2 place records timestamp := by
  obtain ⟨hraised, -⟩ := h.addRecord_global hcur hshort hopens more hearly hglobal
  rcases hc with hk | hexpired
  swap
  · exact .inr (hexpired.trans (max_le_max hclock hraised))
  by_cases hdone : timestamp + dealsExpires.toNat ≤ max clock' v.globalExpireAt
  · exact .inr (hdone.trans (max_le_max le_rfl hraised))
  have hdelay : removeExpiredPagesDelaySec = 60 := rfl
  rcases hk.addRecord h hcur hshort hopens more hearly (by omega) (by omega) with hk' | hlate | ⟨hlow, htaken⟩
  · exact .inl hk'
  · exact .inr (by omega)
  · -- low memory takes no second from a place that is kept until the record is old
    rcases hlead with rfl | ⟨-, hnot⟩
    · exact .inr (htaken.trans (le_max_right _ _))
    · rw [hlow] at hnot
      cases hnot

end Table

/-! ## Adding deals -/

/-- Where the record says that the body is. -/
def DealInfo.place (deal : DealInfo) : Location := ⟨deal.pageName, deal.index, deal.size⟩

/-- The two tables of the process: the records of `db_index` were added, and their bodies last. -/
structure Linked (lead : ℕ) (s : Session) : Prop where
  index : Alone dealInfoTable s.db.indexView
  indexCurrent : Current s.db.indexView
  data : Alone dealDataTable s.db.dataView
  dataCurrent : Current s.db.dataView
  listed : AllOf dealInfoTable (fun deal => ∃ body, (deal, body) ∈ s.created) s.db.indexView
  lasts : ∀ deal body, (deal, body) ∈ s.created →
    Lasts dealDataTable lead s.clock s.db.dataView deal.place body deal.timestamp.toNat
  global : s.db.globalExpireAt < 2 ^ 32

theorem linked_init (lead : ℕ) : Linked lead .init :=
  ⟨alone_init, nofun, alone_init, nofun, fun _ _ h => absurd h (lt_irrefl 0), nofun, Nat.two_pow_pos 32⟩

section Steps

variable {lead : ℕ} {s : Session}

/-- An operation on `db_data`, up to the clock `clock'`. -/
theorem Linked.setData (h : Linked lead s) {clock' : ℕ} {v : View UInt8} (hdata : Alone dealDataTable v)
    (hcur : Current v)
    (hlasts : ∀ deal body, (deal, body) ∈ s.created →
      Lasts dealDataTable lead clock' v deal.place body deal.timestamp.toNat)
    (hglobal : v.globalExpireAt < 2 ^ 32) : Linked lead ⟨s.db.setData v, clock', s.created⟩ :=
  ⟨h.index.of_shared rfl rfl rfl rfl fun _ hpage => .inl hpage, h.indexCurrent, hdata, hcur, h.listed, hlasts,
    hglobal⟩

/-- An operation on `db_index`. -/
theorem Linked.setIndex (h : Linked lead s) {clock' : ℕ} {created : List (DealInfo × Bytes)} {v : View DealInfo}
    (hclock : s.clock ≤ clock') (hindex : Alone dealInfoTable v) (hcur : Current v)
    (hlisted : AllOf dealInfoTable (fun deal => ∃ body, (deal, body) ∈ created) v)
    (hlasts : ∀ deal body, (deal, body) ∈ created →
      Lasts dealDataTable lead s.clock s.db.dataView deal.place body deal.timestamp.toNat)
    (hraised : s.db.globalExpireAt ≤ v.globalExpireAt) (hglobal : v.globalExpireAt < 2 ^ 32) :
    Linked lead ⟨s.db.setIndex v, clock', created⟩ :=
  ⟨hindex, hcur, h.data.of_shared rfl rfl rfl rfl fun _ hpage => .inl hpage, h.dataCurrent, hlisted,
    fun deal body hin => (hlasts deal body hin).mono hclock rfl hraised, hglobal⟩

theorem Session.Timed.addDeal {w : World} {p : AddParams} {body : Bytes} (h : s.Timed (.addDeal w p body)) :
    s.clock ≤ w.data.releaseNow ∧ w.data.releaseNow ≤ w.data.now ∧ w.data.now ≤ w.timestampClock ∧
      w.timestampClock ≤ w.index.releaseNow ∧ w.index.releaseNow ≤ w.index.now ∧
      w.index.now + dealsExpires.toNat + removeExpiredPagesDelaySec < 2 ^ 32 := by
  have hascending := h.ascending
  simp only [DealsCall.clocks, List.pairwise_cons, List.mem_cons, forall_eq_or_imp] at hascending
  obtain ⟨⟨h1, -⟩, ⟨h2, -⟩, ⟨h3, -⟩, ⟨h4, -⟩, ⟨h5, -⟩, -⟩ := hascending
  exact ⟨h1, h2, h3, h4, h5, h.fits _ (by simp [DealsCall.clocks])⟩

/-- The record of a body that was placed says where it is. -/
theorem dealRecord_place {stray : ℤ → UInt8} {now : UInt32} {p : AddParams} {place : Location} {idx : ℕ}
    (hname : place.pageName = dealDataTable.pageName idx) (hidx : idx < dealDataTable.tableMaxPages) :
    (dealRecord stray now place p).place = place := by
  have hshort := dealData_shortNames idx hidx
  have htake : place.pageName.take mempageNameMaxLen = place.pageName := by
    apply List.take_of_length_le
    rw [hname]
    exact hshort.trans (by decide)
  show (⟨place.pageName.take mempageNameMaxLen, place.index, place.size⟩ : Location) = place
  rw [htake]

/-- **An `addDeal` keeps the tables linked.** -/
theorem Linked.addDeal (h : Linked lead s) {w : World} {p : AddParams} {body : Bytes}
    (htimed : s.Timed (.addDeal w p body)) (hprompt : (DealsCall.addDeal w p body).Prompt lead) :
    Linked lead (s.step (.addDeal w p body)) := by
  obtain ⟨hsize, htimestamp, hlead⟩ := hprompt
  obtain ⟨hc1, hc2, hc3, hc4, hc5, hfits⟩ := htimed.addDeal
  have hdelay : removeExpiredPagesDelaySec = 60 := rfl
  have hopensData (name : Bytes) : w.data.opens name = .mapped := (htimed.opens name).2
  have hopensIndex (name : Bytes) : w.index.opens name = .mapped := (htimed.opens name).1
  have hbody : body.take (body.length % 2 ^ 32) = body := by
    rw [Nat.mod_eq_of_lt hsize, List.take_length]
  have hearlyData : w.data.now + dealDataTable.lifetime 0 + removeExpiredPagesDelaySec < 2 ^ 32 := by
    show w.data.now + dealsExpires.toNat + removeExpiredPagesDelaySec < 2 ^ 32
    omega
  have hearlyIndex : w.index.now + dealInfoTable.lifetime 0 + removeExpiredPagesDelaySec < 2 ^ 32 := hfits
  -- the body
  obtain ⟨hdata, hcur, houtcome⟩ := h.data.addRecord h.dataCurrent dealData_shortNames hopensData body hearlyData
  obtain ⟨hraised, hglobal⟩ :=
    h.data.addRecord_global h.dataCurrent dealData_shortNames hopensData body hearlyData h.global
  have hlasts (deal : DealInfo) (b : Bytes) (hin : (deal, b) ∈ s.created) :=
    (h.lasts deal b hin).addRecord h.data h.dataCurrent dealData_shortNames hopensData body hearlyData h.global
      (show s.clock ≤ w.index.now by omega) (by omega) (by omega) (hlead.imp_right fun hl => hl)
  have hlinked := h.setData hdata hcur hlasts hglobal
  show Linked lead ⟨(s.db.addDeal w p body).2, w.index.now,
    s.created ++ (s.db.added w p body).map fun info => (info, body)⟩
  unfold Database.added Database.addDeal
  rw [hbody]
  obtain ⟨err, hadd⟩ | ⟨r, v₁, hadd, hplaced⟩ := houtcome
  · rw [hadd] at hlinked ⊢
    simpa using hlinked
  rw [hadd] at hlinked ⊢
  dsimp only
  set place : Location := ⟨dealDataTable.pageName r.idx, r.start.toUInt32, body.length.toUInt32⟩ with hplace
  set info := dealRecord w.stray w.timestampClock.toUInt32 place p with hinfo
  -- the record
  obtain ⟨hindex, hcurIndex, houtcome⟩ :=
    hlinked.index.addRecord hlinked.indexCurrent dealInfo_shortNames hopensIndex [info] hearlyIndex
  obtain ⟨hraisedIndex, hglobalIndex⟩ := hlinked.index.addRecord_global hlinked.indexCurrent dealInfo_shortNames
    hopensIndex [info] hearlyIndex hlinked.global
  obtain ⟨err, haddIndex⟩ | ⟨r', v₂, haddIndex, hplacedIndex⟩ := houtcome
  · obtain ⟨-, -, hleaves, -⟩ :=
      hlinked.index.release hlinked.indexCurrent dealInfo_shortNames w.index hopensIndex
    have hlisted := hlinked.listed.leaves hlinked.index hleaves
    rw [haddIndex] at hindex hcurIndex hraisedIndex hglobalIndex ⊢
    simpa using hlinked.setIndex le_rfl hindex hcurIndex hlisted hlinked.lasts hraisedIndex hglobalIndex
  · have hmore := hlinked.listed.mono (Q := fun deal => ∃ b, (deal, b) ∈ s.created ++ [(info, body)])
      fun deal ⟨b, hin⟩ => ⟨b, List.mem_append_left _ hin⟩
    have hnew : ∀ e ∈ [info], ∃ b, (e, b) ∈ s.created ++ [(info, body)] := by
      intro e he
      rw [List.mem_singleton.1 he]
      exact ⟨body, by simp⟩
    have hlisted :=
      hmore.addRecord hlinked.index hlinked.indexCurrent dealInfo_shortNames hopensIndex hearlyIndex hnew
    rw [haddIndex] at hindex hcurIndex hraisedIndex hglobalIndex hlisted ⊢
    refine hlinked.setIndex le_rfl hindex hcurIndex hlisted (fun deal b hin => ?_) hraisedIndex hglobalIndex
    rcases List.mem_append.1 hin with hold | hnew
    · exact hlinked.lasts deal b hold
    · obtain ⟨rfl, rfl⟩ := Prod.mk.inj (List.mem_singleton.1 hnew)
      obtain ⟨u, hr, -⟩ := hplaced.reserves
      have hword : info.timestamp.toNat = w.timestampClock :=
        UInt32.toNat_ofNat_of_lt' (by show w.timestampClock < 2 ^ 32; omega)
      rw [hword, dealRecord_place rfl hr.idx_lt]
      exact hplaced.lasts rfl (by omega) htimestamp

/-! ## Searches -/

/-- What passes the filters is not too old. -/
theorem young_of_passes {q : SearchQuery} {deal : DealInfo} (hpasses : processElement q deal = true) :
    q.minTimestamp < deal.timestamp := by
  by_contra hold
  rw [processElement, if_pos (UInt32.not_lt.1 hold)] at hpasses
  cases hpasses

/-- What `execute` returns are records of the table that are not older than a day. -/
theorem execute_young {agg : Aggregation} {w : SearchWorld} {q : SearchQuery} {result : List DealInfo}
    (h : DealsServer.execute agg w q = .ok result) :
    ∃ records, w.records = .ok records ∧
      ∀ deal ∈ result, deal ∈ records ∧ minTimestamp w.globalExpireAt w.clock < deal.timestamp := by
  rw [execute_eq] at h
  rcases hpre : agg.preSearch { q with groupByReturnDate := false } with e | q'
  · rw [hpre] at h
    cases h
  rw [hpre] at h
  rcases hrecords : w.records with fault | records
  · simp only [bind, Except.bind, DealsServer.found, hrecords] at h
    cases h
  refine ⟨records, rfl, fun deal hdeal => ?_⟩
  simp only [bind, Except.bind, DealsServer.found, hrecords] at h
  cases h
  -- every group is answered with one of the records that passed the filters
  obtain ⟨k, hk, rfl⟩ := List.mem_map.1 ((answer_perm agg _ w.orderPerm _).mem_iff.1 (List.mem_of_mem_take hdeal))
  obtain ⟨hin, hpasses⟩ := List.mem_filter.1 (winner_mem hk).1
  exact ⟨hin, young_of_passes hpasses⟩

/-- A record that is not too old has not reached its end at the clock of the search. -/
theorem young_not_over {g clock : ℕ} {timestamp : UInt32} (hg : g < 2 ^ 32) (hclock : clock < 2 ^ 32)
    (h : minTimestamp g.toUInt32 clock.toUInt32 < timestamp) : max clock g < timestamp.toNat + dealsExpires.toNat := by
  have hday : dealsExpires.toNat = 86400 := rfl
  have hmax : (max g.toUInt32 clock.toUInt32).toNat = max clock g := by
    have hg' : g.toUInt32.toNat = g := UInt32.toNat_ofNat_of_lt' hg
    have hclock' : clock.toUInt32.toNat = clock := UInt32.toNat_ofNat_of_lt' hclock
    show (if g.toUInt32 ≤ clock.toUInt32 then clock.toUInt32 else g.toUInt32).toNat = _
    split_ifs with hle
    · rw [UInt32.le_iff_toNat_le, hg', hclock'] at hle
      rw [hclock', max_eq_left hle]
    · rw [UInt32.le_iff_toNat_le, hg', hclock'] at hle
      rw [hg', max_eq_right (by omega)]
  by_cases hearly : max clock g < dealsExpires.toNat
  · omega
  · rw [UInt32.lt_iff_toNat_lt, minTimestamp, UInt32.toNat_sub_of_le, hmax] at h
    · omega
    · rw [UInt32.le_iff_toNat_le, hmax]
      omega

/-- Bodies that are kept are read one after the other. -/
theorem fillLoop_kept {created : List (DealInfo × Bytes)} {opens : Bytes → OpenResult}
    (hopens : ∀ name, opens name = .mapped) {v : View UInt8} (h : Alone dealDataTable v) (hcur : Current v)
    (deals : List DealInfo) (hadded : ∀ deal ∈ deals, ∃ body, (deal, body) ∈ created)
    (hkept : ∀ deal ∈ deals, ∀ body, (deal, body) ∈ created → ∃ e, Kept dealDataTable v deal.place body e) :
    ∃ result own, Database.fillLoop opens deals v = (.ok result, { v with own := own }) ∧
      (∀ page ∈ own.openedPagesList, v.shared.names page.1 = some page.2) ∧
      List.Forall₂ (OwnBody created) deals result := by
  induction deals generalizing v with
  | nil => exact ⟨[], v.own, rfl, hcur, .nil⟩
  | cons deal rest ih =>
    obtain ⟨body, hin⟩ := hadded deal List.mem_cons_self
    obtain ⟨e, hk⟩ := hkept deal List.mem_cons_self body hin
    obtain ⟨own, hget, hopened⟩ := hk.getElementData h dealData_shortNames hopens
    have hcur₁ : Current ({ v with own := own } : View UInt8) := by
      intro page hpage
      rcases hopened page hpage with hold | hnew
      · exact hcur page hold
      · exact hnew
    have h₁ : Alone dealDataTable ({ v with own := own } : View UInt8) :=
      h.of_shared rfl rfl rfl rfl fun page hpage => .inr (hcur₁ page hpage)
    obtain ⟨result, own', hfill, hcur', hrest⟩ := ih h₁ hcur₁ (fun d hd => hadded d (List.mem_cons_of_mem _ hd))
      fun d hd => hkept d (List.mem_cons_of_mem _ hd)
    refine ⟨body :: result, own', ?_, hcur', .cons ⟨⟨body, hin⟩, fun body' hin' => ?_⟩ hrest⟩
    · -- the location stored in the deal is the place of its body
      have hplace : v.getElementData ⟨deal.pageName, deal.index, deal.size⟩ opens = (.ok body, { v with own := own }) := hget
      unfold Database.fillLoop
      rw [hplace]
      dsimp only
      rw [hfill]
    · obtain ⟨e', hk'⟩ := hkept deal List.mem_cons_self body' hin'
      obtain ⟨own'', hget', -⟩ := hk'.getElementData h dealData_shortNames hopens
      rw [hget] at hget'
      cases hget'
      rfl

theorem Session.Timed.searchFor {agg : Aggregation} {w : World} {p : TopParams} (h : s.Timed (.searchFor agg w p)) :
    s.clock ≤ w.searchClock ∧ w.searchClock ≤ w.index.now ∧ w.searchClock < 2 ^ 32 := by
  have hascending := h.ascending
  simp only [DealsCall.clocks, List.pairwise_cons, List.mem_cons, forall_eq_or_imp] at hascending
  obtain ⟨⟨-, h1, -⟩, -, ⟨-, h2, -⟩, -⟩ := hascending
  have hfits := h.fits w.searchClock (by simp [DealsCall.clocks])
  exact ⟨h1, h2, by omega⟩

theorem Linked.advance (h : Linked lead s) {clock' : ℕ} (hclock : s.clock ≤ clock') :
    Linked lead ⟨s.db, clock', s.created⟩ :=
  h.setIndex hclock h.index h.indexCurrent h.listed h.lasts le_rfl h.global

/-- The query reads records that were added and are not too old. -/
theorem Linked.execute (h : Linked lead s) {agg : Aggregation} {w : World} {p : TopParams}
    (htimed : s.Timed (.searchFor agg w p)) (q : SearchQuery) :
    Linked lead ⟨(s.db.execute agg w q).2, w.index.now, s.created⟩ ∧
      (s.db.execute agg w q).2.dataView = s.db.dataView ∧
      ∀ deals, (s.db.execute agg w q).1 = .ok deals → ∀ deal ∈ deals, (∃ body, (deal, body) ∈ s.created) ∧
        max w.searchClock s.db.globalExpireAt < deal.timestamp.toNat + dealsExpires.toNat := by
  obtain ⟨hclock, hnow, hword⟩ := htimed.searchFor
  have hopens (name : Bytes) : w.index.opens name = .mapped := (htimed.opens name).1
  obtain ⟨hindex, hcur, hlisted, hsame, hread⟩ :=
    h.index.processRecords h.indexCurrent dealInfo_shortNames hopens h.listed
  unfold Database.execute
  rcases agg.preSearch { q with groupByReturnDate := false } with e | q'
  · exact ⟨h.advance (hclock.trans hnow), rfl, nofun⟩
  dsimp only
  rcases hp : s.db.indexView.processRecords dealInfoTable w.index with ⟨records, v⟩
  rw [hp] at hindex hcur hlisted hsame hread
  refine ⟨h.setIndex (hclock.trans hnow) hindex hcur hlisted h.lasts hsame.ge (hsame.trans_lt h.global), ?_,
    fun deals hdeals deal hdeal => ?_⟩
  · show (⟨s.db.dbData.shared, v.globalExpireAt, s.db.dbData.own⟩ : View UInt8) = s.db.dataView
    rw [hsame]
    rfl
  · obtain ⟨all, hall, hyoung⟩ := execute_young hdeals
    obtain ⟨hin, hlater⟩ := hyoung deal hdeal
    rcases records with err | elements
    · cases hall
    · cases hall
      exact ⟨hread _ rfl deal hin, young_not_over h.global hword hlater⟩

/-- **A `searchFor` keeps the tables linked**, and returns every deal with its own body. -/
theorem Linked.searchFor (h : Linked lead s) {agg : Aggregation} {w : World} {p : TopParams}
    (htimed : s.Timed (.searchFor agg w p)) :
    Linked lead (s.step (.searchFor agg w p)) ∧ ∀ result, (s.db.searchFor agg w p).1 = .ok result →
      ∃ deals, s.db.found agg w p = .ok deals ∧ List.Forall₂ (OwnBody s.created) deals result := by
  obtain ⟨hclock, hnow, -⟩ := htimed.searchFor
  have hopens (name : Bytes) : w.data.opens name = .mapped := (htimed.opens name).2
  show Linked lead ⟨(s.db.searchFor agg w p).2, w.index.now, s.created⟩ ∧ _
  unfold Database.found Database.searchFor
  rcases buildQuery w.memory w.lifetimeClock.toUInt32 p with e | q
  · exact ⟨h.advance (hclock.trans hnow), nofun⟩
  dsimp only
  -- the search reads the index only, so bodies stay where they are
  obtain ⟨hlinked, hview, hfound⟩ := h.execute htimed q
  rcases hex : s.db.execute agg w q with ⟨e | deals, db'⟩
  · rw [hex] at hlinked
    exact ⟨hlinked, nofun⟩
  rw [hex] at hlinked hview hfound
  dsimp only at hlinked hview hfound ⊢
  have hkept (deal : DealInfo) (hdeal : deal ∈ deals) (body : Bytes) (hin : (deal, body) ∈ s.created) :
      ∃ e, Kept dealDataTable db'.dataView deal.place body e := by
    obtain ⟨-, hlater⟩ := hfound deals rfl deal hdeal
    rw [hview]
    rcases h.lasts deal body hin with hk | hover
    · exact ⟨_, hk⟩
    · -- the record would have been too old
      have hglobal : s.db.dataView.globalExpireAt = s.db.globalExpireAt := rfl
      omega
  obtain ⟨result, own, hfill, hcur, hown⟩ := fillLoop_kept hopens hlinked.data hlinked.dataCurrent deals
    (fun deal hdeal => (hfound deals rfl deal hdeal).1) hkept
  rw [hfill]
  refine ⟨hlinked.setData (hlinked.data.of_shared rfl rfl rfl rfl fun page hpage => .inr (hcur page hpage)) hcur
    hlinked.lasts hlinked.global, fun result' hresult => ⟨deals, rfl, ?_⟩⟩
  cases hresult
  exact hown

end Steps

/-! ## Runs -/

/-- **Every deal is returned with its own body**, in every run in which timestamps are read in time. -/
theorem carriesPayload (lead : ℕ) (calls : List DealsCall)
    (htimed : Always Session.step Session.Timed .init calls) (hprompt : ∀ call ∈ calls, call.Prompt lead) :
    CarriesPayload calls := by
  have hruns := htimed.and (always_of_forall hprompt Session.init)
  rintro pre agg w p post rfl result hresult
  rw [always_append] at hruns
  obtain ⟨hpre, ⟨hsearch, -⟩, -⟩ := hruns
  have hlinked : Linked lead (run Session.step .init pre) := by
    refine inv_run (Linked lead) (fun s call h hok => ?_) (linked_init lead) hpre
    cases call with
    | addDeal w p body => exact h.addDeal hok.1 hok.2
    | searchFor agg w p => exact (h.searchFor hok.1).1
  exact (hlinked.searchFor hsearch).2 result hresult

/-- A deal from `origin`. -/
def postedFrom (origin : UInt32) : AddParams where
  returnDate := none
  departureDate := ⟨20160510, 10, 5, 2016⟩
  price := 100
  locale := 184
  destinationCountry := 184
  destination := 1
  origin := origin
  directFlight := true

/-- A deal is added, another one in the last second of its page, and the first is searched for. -/
def promptTimestamp : List DealsCall :=
  [.addDeal (quietWorld 1000000) (postedFrom 0) (str "A"), .addDeal (quietWorld 1086399) (postedFrom 1) (str "B"),
    .searchFor .simplyCheapest (quietWorld 1086399) oneDeal]

theorem carriesPayload_prompt : CarriesPayload promptTimestamp := by
  refine carriesPayload 0 promptTimestamp ?_ ?_
  · refine ⟨⟨?_, ?_, fun _ => ⟨rfl, rfl⟩⟩, ⟨?_, ?_, fun _ => ⟨rfl, rfl⟩⟩, ⟨?_, ?_, fun _ => ⟨rfl, rfl⟩⟩, trivial⟩
    all_goals decide
  · intro call hcall
    simp only [promptTimestamp, List.mem_cons, List.not_mem_nil, or_false] at hcall
    rcases hcall with rfl | rfl | rfl
    · exact ⟨by decide, by decide, .inl rfl⟩
    · exact ⟨by decide, by decide, .inl rfl⟩
    · trivial

/-! ## A late timestamp -/

/-- The only record of its group wins. -/
theorem winner_one (key : DealInfo → UInt32) (deal : DealInfo) :
    (groupsOf key [deal]).keys.map (winner key [deal]) = [deal] := by
  have ht : Tracked key [deal] (groupsOf key [deal]) := tracked_groupsOf [deal]
  have hkeys : (groupsOf key [deal]).keys = [key deal] := by
    apply List.perm_singleton.1
    rw [List.perm_ext_iff_of_nodup ht.nodup (List.nodup_singleton _)]
    exact ht.mem_keys
  have hin : key deal ∈ (groupsOf key [deal]).keys := by
    rw [hkeys]
    exact List.mem_singleton_self _
  rw [hkeys, List.map_singleton, List.mem_singleton.1 (winner_mem hin).1]

/-- A search that one record passes finds that record. -/
theorem execute_one {agg : Aggregation} {w : SearchWorld} {q : SearchQuery} {q' : DayQuery} {records : List DealInfo}
    {deal : DealInfo} (hpre : agg.preSearch { q with groupByReturnDate := false } = .ok q')
    (hrecords : w.records = .ok records)
    (hpasses : records.filter (processElement { q'.toSearchQuery with
      minTimestamp := minTimestamp w.globalExpireAt w.clock }) = [deal])
    (hlimit : 0 < q'.filterResultLimit.toNat) : DealsServer.execute agg w q = .ok [deal] := by
  rw [execute_eq, hpre]
  simp only [bind, Except.bind, DealsServer.found, hrecords]
  show Except.ok (List.take _ (agg.answer { q' with minTimestamp := minTimestamp w.globalExpireAt w.clock } w.order
    (records.filter (processElement { q'.toSearchQuery with
      minTimestamp := minTimestamp w.globalExpireAt w.clock })))) = _
  rw [hpasses]
  have hperm := answer_perm agg { q' with minTimestamp := minTimestamp w.globalExpireAt w.clock } w.orderPerm [deal]
  rw [winner_one] at hperm
  rw [List.perm_singleton.1 hperm, List.take_of_length_le hlimit]

/-- The clock passes two seconds between the body and the timestamp of its record. -/
def lateWorld : World := { quietWorld 1000000 with timestampClock := 1000002, index := quietCalls 1000002 }

/-- A deal is added with a late timestamp. A day later its body has expired and its record not, another deal is added,
and the first is searched for. -/
def lateTimestamp : List DealsCall :=
  [.addDeal lateWorld (postedFrom 0) (str "A"), .addDeal (quietWorld 1086401) (postedFrom 1) (str "B"),
    .searchFor .simplyCheapest (quietWorld 1086401) oneDeal]

theorem lateTimestamp_timed : Always Session.step Session.Timed .init lateTimestamp := by
  refine ⟨⟨?_, ?_, fun _ => ⟨rfl, rfl⟩⟩, ⟨?_, ?_, fun _ => ⟨rfl, rfl⟩⟩, ⟨?_, ?_, fun _ => ⟨rfl, rfl⟩⟩, trivial⟩
  all_goals decide

/-- The record of the first deal. -/
def lateDeal : DealInfo := dealRecord (fun _ => 0) 1000002 ⟨str "DealsData:0", 0, 1⟩ (postedFrom 0)

theorem late_created : (run Session.step .init (lateTimestamp.take 2)).created =
    [(lateDeal, str "A"), (dealRecord (fun _ => 0) 1086401 ⟨str "DealsData:0", 0, 1⟩ (postedFrom 1), str "B")] := by
  decide +kernel

/-- The query of `oneDeal`. -/
def lateQuery : SearchQuery := queryOf (quietWorld 1086401).memory 1086401 oneDeal [] []

theorem late_query :
    buildQuery (quietWorld 1086401).memory (quietWorld 1086401).lifetimeClock.toUInt32 oneDeal = .ok lateQuery := rfl

theorem late_found :
    ((run Session.step .init (lateTimestamp.take 2)).db.execute .simplyCheapest (quietWorld 1086401) lateQuery).1 =
      .ok [lateDeal] := by
  apply @execute_one _ _ _ _ [lateDeal, dealRecord (fun _ => 0) 1086401 ⟨str "DealsData:0", 0, 1⟩ (postedFrom 1)]
  · rfl
  · decide +kernel
  · decide +kernel
  · decide +kernel

/-- **A deal is returned with the body of another.** -/
theorem late_timestamp :
    Always Session.step Session.Timed .init lateTimestamp ∧ ¬ CarriesPayload lateTimestamp := by
  refine ⟨lateTimestamp_timed, fun h => ?_⟩
  have hsearch : ((run Session.step .init (lateTimestamp.take 2)).db.searchFor .simplyCheapest (quietWorld 1086401)
      oneDeal).1 = .ok [str "B"] := by
    -- the page of the body was given to the other deal in between
    have hread : (Database.fillLoop (quietWorld 1086401).data.opens [lateDeal] ((run Session.step .init
        (lateTimestamp.take 2)).db.execute .simplyCheapest (quietWorld 1086401) lateQuery).2.dataView).1 =
          .ok [str "B"] := by
      decide +kernel
    have hfound := late_found
    unfold Database.searchFor
    rw [late_query]
    dsimp only
    rcases hex : (run Session.step .init (lateTimestamp.take 2)).db.execute .simplyCheapest (quietWorld 1086401)
      lateQuery with ⟨res, db⟩
    rw [hex] at hread hfound
    cases hfound
    dsimp only at hread ⊢
    rw [hread]
    rfl
  obtain ⟨deals, hdeals, hown⟩ := h (lateTimestamp.take 2) _ _ _ [] rfl _ hsearch
  have hfound : (run Session.step .init (lateTimestamp.take 2)).db.found .simplyCheapest (quietWorld 1086401) oneDeal =
      .ok [lateDeal] := by
    rw [Database.found, late_query]
    exact late_found
  rw [hfound] at hdeals
  cases hdeals
  obtain ⟨hlate, -⟩ := List.forall₂_cons.1 hown
  have hbody := hlate.own (str "A") (by rw [late_created]; exact List.mem_cons_self)
  revert hbody
  decide

end DealsServer
