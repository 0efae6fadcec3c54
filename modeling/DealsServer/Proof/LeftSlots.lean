import DealsServer.Proof.Stock

/-!
# Slots that stay handed out

An `addRecord` that cannot map its page has handed out the slots before.

* `Unseen.shown`: such slots change nothing for a search that lets through none of what is in them.
* `Kempt.addRecord_fails`: what an `addRecord` that fails leaves for a later search.
-/

namespace DealsServer

variable {α : Type} {cfg : TableConfig} {v v₁ : View α}

/-! ## Slots without their records -/

/-- Elements that a search does not let through do not matter at the end. -/
theorem filter_map_range {P : α → Bool} {e : ℕ → α} {n m : ℕ} (hle : n ≤ m) (hbarred : ∀ i, n ≤ i → i < m → P (e i) = false) :
    ((List.range m).map e).filter P = ((List.range n).map e).filter P := by
  induction m, hle using Nat.le_induction with
  | base => rfl
  | succ m hnm ih =>
    rw [List.range_succ, List.map_append, List.filter_append, ih fun i hi him => hbarred i hi (by omega)]
    have hlast : [e m].filter P = [] := by
      rw [List.filter_cons_of_neg (by rw [hbarred m hnm (Nat.lt_succ_self m)]; exact Bool.false_ne_true)]
      rfl
    exact (congrArg _ hlast).trans (List.append_nil _)

section Slots

variable [Inhabited α]

/-- The slots handed out on the entry `k` show a search from `now` on nothing that it lets through. -/
structure Unseen (cfg : TableConfig) (P : α → Bool) (v : View α) (type : PageType) (k now count lifetime : ℕ) :
    Prop where
  global : type = .oldest → (v.shared.index k).expireAt ≤ v.globalExpireAt
  used : 0 < ((v.reserved cfg type k now count lifetime).shared.index k).expireAt
  last : (v.shared.index k).expireAt = 0 → ∀ j, k < j → j < cfg.tableMaxPages → (v.shared.index j).expireAt = 0
  barred : ∀ clock, now ≤ clock → Live cfg (v.reserved cfg type k now count lifetime) clock k →
    ∀ i < ((v.reserved cfg type k now count lifetime).shared.index k).used cfg,
      Live cfg v clock k ∧ i < (v.shared.index k).used cfg ∨
        P (v.shared.element ((v.reserved cfg type k now count lifetime).shared.index k).pageName i) = false

variable {P : α → Bool} {type : PageType} {k now count lifetime : ℕ}

omit [Inhabited α] in
theorem reserved_index_ne {j : ℕ} (hne : j ≠ k) :
    (v.reserved cfg type k now count lifetime).shared.index j = v.shared.index j :=
  Function.update_of_ne hne ..

omit [Inhabited α] in
theorem reserved_index_self : (v.reserved cfg type k now count lifetime).shared.index k =
    reservedEntry cfg (readyRecord cfg type k (v.shared.index k)) now count lifetime :=
  Function.update_self ..

theorem Unseen.globalExpireAt_eq (h : Unseen cfg P v type k now count lifetime) :
    (v.reserved cfg type k now count lifetime).globalExpireAt = v.globalExpireAt := by
  show (if type = .oldest then max v.globalExpireAt (v.shared.index k).expireAt else v.globalExpireAt) = _
  split_ifs with hold
  · exact max_eq_left (h.global hold)
  · rfl

/-- The other entries are live as they were. -/
theorem Unseen.live_iff (h : Unseen cfg P v type k now count lifetime) {clock idx : ℕ} (hne : idx ≠ k) :
    Live cfg (v.reserved cfg type k now count lifetime) clock idx ↔ Live cfg v clock idx := by
  have hglobal := h.globalExpireAt_eq
  have hself : (v.reserved cfg type k now count lifetime).shared.index idx = v.shared.index idx := reserved_index_ne hne
  constructor
  · intro hlive
    have hidx := hlive.used idx le_rfl
    rw [hself] at hidx
    refine ⟨hlive.range, fun j hj => ?_, by rw [← hself]; exact hlive.clock, ?_⟩
    · by_cases hjk : j = k
      · -- an entry behind an unused one is not used
        subst hjk
        by_contra hzero
        have hlast := h.last (by omega) idx (by omega) hlive.range
        omega
      · have hused := hlive.used j hj
        rwa [reserved_index_ne hjk] at hused
    · rw [← hself, ← hglobal]
      exact hlive.global
  · intro hlive
    refine ⟨hlive.range, fun j hj => ?_, by rw [hself]; exact hlive.clock, ?_⟩
    · by_cases hjk : j = k
      · rw [hjk]
        exact h.used
      · rw [reserved_index_ne hjk]
        exact hlive.used j hj
    · rw [hself, hglobal]
      exact hlive.global

/-- The slots of a live entry are those behind the ones it has. -/
theorem Unseen.current (h : Unseen cfg P v type k now count lifetime) {memLow : Bool}
    (hselect : v.selectPage cfg now memLow count = (type, k)) (hknown : type ≠ .unknown) {clock : ℕ}
    (hclock : now ≤ clock) (hlive : Live cfg v clock k) :
    type = .current ∧ count ≤ (v.shared.index k).pageElementsAvailable := by
  have hlasts := hlive.clock
  have hused := hlive.used k le_rfl
  rcases selectPage_cases hselect with hunknown | ⟨-, ⟨hfound, -⟩ | ⟨hold, -⟩⟩
  · exact absurd hunknown hknown
  · rcases hfound with ⟨-, -, hlt⟩ | ⟨htype, -, -, havail⟩ | ⟨-, hzero⟩
    · omega
    · exact ⟨htype, havail⟩
    · omega
  · have hglobal := h.global hold
    have := hlive.global
    omega

/-- A live entry stays live. -/
theorem Unseen.live (h : Unseen cfg P v type k now count lifetime) {clock : ℕ} (hlive : Live cfg v clock k)
    (hlater : (v.shared.index k).expireAt ≤ ((v.reserved cfg type k now count lifetime).shared.index k).expireAt) :
    Live cfg (v.reserved cfg type k now count lifetime) clock k := by
  refine ⟨hlive.range, fun j hj => ?_, hlive.clock.trans_le hlater, ?_⟩
  · by_cases hjk : j = k
    · rw [hjk]
      exact h.used
    · rw [reserved_index_ne hjk]
      exact hlive.used j hj
  · rw [h.globalExpireAt_eq]
    exact hlive.global.trans_le hlater

/-- **Slots that stay handed out change nothing for a search**, if it lets through none of what is in them. -/
theorem Unseen.shown (h : Unseen cfg P v type k now count lifetime) (hb : Bounded cfg v.shared.index) {memLow : Bool}
    (hselect : v.selectPage cfg now memLow count = (type, k)) (hknown : type ≠ .unknown) {clock : ℕ}
    (hclock : now ≤ clock) (idx : ℕ) :
    ((v.reserved cfg type k now count lifetime).shown cfg clock idx).filter P = (v.shown cfg clock idx).filter P := by
  by_cases hidx : idx = k
  swap
  · rw [shown_congr (h.live_iff hidx) (fun _ => reserved_index_ne hidx) fun _ => rfl]
  subst hidx
  have hbarred := h.barred clock hclock
  by_cases hlive : Live cfg v clock idx
  · -- a live entry goes on behind the slots it has
    obtain ⟨rfl, havail⟩ := h.current hselect hknown hclock hlive
    have hentry : (v.reserved cfg .current idx now count lifetime).shared.index idx =
        reservedEntry cfg (v.shared.index idx) now count lifetime := reserved_index_self
    have hroom : (v.shared.index idx).used cfg + count +
        ((v.reserved cfg .current idx now count lifetime).shared.index idx).pageElementsAvailable =
          cfg.maxElementsInPage := by
      rw [hentry]
      exact reservedEntry_room (hb idx hlive.range (hlive.used idx le_rfl)) havail
    have hused : ((v.reserved cfg .current idx now count lifetime).shared.index idx).used cfg +
        ((v.reserved cfg .current idx now count lifetime).shared.index idx).pageElementsAvailable =
          cfg.maxElementsInPage := used_add (by omega)
    have hname : ((v.reserved cfg .current idx now count lifetime).shared.index idx).pageName =
        (v.shared.index idx).pageName := by
      rw [hentry, reservedEntry_mk]
    have hlater : (v.shared.index idx).expireAt ≤
        ((v.reserved cfg .current idx now count lifetime).shared.index idx).expireAt := by
      rw [hentry, reservedEntry_mk]
      exact le_max_left _ _
    have hlive' := h.live hlive hlater
    rw [View.shown, if_pos hlive', View.shown, if_pos hlive, View.slots, View.slots, hname]
    refine filter_map_range (by omega) fun i hi hlt => ?_
    rcases hbarred hlive' i hlt with ⟨-, hold⟩ | hfails
    · omega
    · rwa [hname] at hfails
  · rw [View.shown, View.shown, if_neg hlive]
    by_cases hlive' : Live cfg (v.reserved cfg type idx now count lifetime) clock idx
    swap
    · rw [if_neg hlive']
    rw [if_pos hlive', List.filter_nil, List.filter_eq_nil_iff]
    intro e he
    obtain ⟨i, hi, rfl⟩ := List.mem_map.1 he
    rcases hbarred hlive' i (List.mem_range.1 hi) with ⟨hold, -⟩ | hfails
    · exact absurd hold hlive
    · exact Bool.eq_false_iff.1 hfails

/-! ## An addRecord that fails -/

/-- The call gets slots, and their page. -/
def Inserts (cfg : TableConfig) (v : View α) (c : Calls) (count : ℕ) : Prop :=
  ∃ v₁ type k, Comes cfg v v₁ c count type k ∧ Maps v₁ (cfg.pageName k) (c.opens (cfg.pageName k))

/-- No page of the table is given up that has records to show. -/
def SparesOldest (cfg : TableConfig) (v : View α) (c : Calls) (count : ℕ) : Prop :=
  ∀ v₁ k, Comes cfg v v₁ c count .oldest k → (v₁.shared.index k).expireAt ≤ v₁.globalExpireAt

variable {c : Calls} {records : List α}

theorem addRecord_ok_iff (cfg : TableConfig) (v : View α) (c : Calls) (records : List α) (lifetime : ℕ) :
    (∃ place, (v.addRecord cfg c records lifetime).1 = .ok place) ↔ Inserts cfg v c records.length := by
  constructor
  · rintro ⟨place, hok⟩
    by_cases hcomes : ∃ v₁ type k, Comes cfg v v₁ c records.length type k
    · obtain ⟨v₁, type, k, hcomes⟩ := hcomes
      refine ⟨v₁, type, k, hcomes, ?_⟩
      by_contra hmaps
      obtain ⟨err, herr⟩ := ((hcomes.addRecord lifetime).2 hmaps).1
      rw [hok] at herr
      cases herr
    · obtain ⟨err, hadd⟩ := addRecord_early lifetime hcomes
      rw [hadd] at hok
      cases hok
  · rintro ⟨v₁, type, k, hcomes, hmaps⟩
    exact (hcomes.addRecord lifetime).1 hmaps

/-- `global_expire_at` is raised only for a page that is given up. -/
theorem SparesOldest.global (h : SparesOldest cfg v c records.length) (lifetime : ℕ) :
    (v.addRecord cfg c records lifetime).2.globalExpireAt = v.globalExpireAt := by
  have hrelease := release_global cfg v c
  by_cases hcomes : ∃ v₁ type k, Comes cfg v v₁ c records.length type k
  swap
  · obtain ⟨err, hadd⟩ := addRecord_early lifetime hcomes
    rw [hadd]
    exact hrelease
  obtain ⟨v₁, type, k, hcomes⟩ := hcomes
  rw [hcomes.release] at hrelease
  have hreserved : (v₁.reserved cfg type k c.now records.length lifetime).globalExpireAt = v.globalExpireAt := by
    show (if type = .oldest then max v₁.globalExpireAt (v₁.shared.index k).expireAt else v₁.globalExpireAt) = _
    split_ifs with hold
    · subst hold
      rw [max_eq_left (h v₁ k hcomes)]
      exact hrelease
    · exact hrelease
  have hsame := getPageByName_same (v₁.reserved cfg type k c.now records.length lifetime) (cfg.pageName k)
    (c.opens (cfg.pageName k))
  obtain ⟨err, v₂, hget, hadd⟩ | ⟨o, v₂, place, start, hget, hadd⟩ := hcomes.outcome lifetime
  · rw [hget] at hsame
    rw [hadd]
    exact hsame.global_eq.trans hreserved
  · rw [hget] at hsame
    rw [hadd]
    exact hsame.global_eq.trans hreserved

/-- With memory left, no page is given up. -/
theorem sparesOldest_of_memory {count : ℕ} (h : c.memLow = false) : SparesOldest cfg v c count := by
  intro v₁ k hcomes
  rcases selectPage_cases hcomes.select with hunknown | ⟨-, ⟨hfound, -⟩ | ⟨-, hlow, -⟩⟩
  · cases hunknown
  · rcases hfound with ⟨hexpired, -⟩ | ⟨hcurrent, -⟩ | ⟨hnew, -⟩
    · cases hexpired
    · cases hcurrent
    · cases hnew
  · rw [h] at hlow
    cases hlow

/-- **An `addRecord` that fails leaves a later search what it had**, if slots that stay handed out are hidden from it. -/
theorem Kempt.addRecord_fails (h : Kempt cfg v)
    (hunseen : ∀ v₁ type k, Comes cfg v v₁ c records.length type k →
      ¬ Maps v₁ (cfg.pageName k) (c.opens (cfg.pageName k)) → Unseen cfg P v₁ type k c.now records.length lifetime)
    {err : TableError} (herr : (v.addRecord cfg c records lifetime).1 = .error err) :
    (v.addRecord cfg c records lifetime).2.globalExpireAt = v.globalExpireAt ∧
      ∀ clock, c.releaseNow ≤ clock → c.now ≤ clock →
        ((v.addRecord cfg c records lifetime).2.stock cfg clock).filter P = (v.stock cfg clock).filter P := by
  obtain ⟨horder, hshown⟩ := h.release c
  have hrelease := release_global cfg v c
  by_cases hcomes : ∃ v₁ type k, Comes cfg v v₁ c records.length type k
  swap
  · obtain ⟨err', hadd⟩ := addRecord_early lifetime hcomes
    rw [hadd]
    refine ⟨hrelease, fun clock hclock _ => ?_⟩
    rw [View.stock, View.stock, hshown clock hclock]
  obtain ⟨v₁, type, k, hcomes⟩ := hcomes
  rw [hcomes.release] at horder hshown hrelease
  have hmaps : ¬ Maps v₁ (cfg.pageName k) (c.opens (cfg.pageName k)) := by
    intro hmaps
    obtain ⟨place, hok⟩ := (hcomes.addRecord lifetime).1 hmaps
    rw [hok] at herr
    cases herr
  have hslots := hunseen v₁ type k hcomes hmaps
  have hsound : Sound (v₁.reserved cfg type k c.now records.length lifetime).shared :=
    ⟨horder.sound.allocated, horder.sound.injective⟩
  have hpages := getPageByName_shown cfg hsound (cfg.pageName k) (c.opens (cfg.pageName k))
  have hsame := getPageByName_same (v₁.reserved cfg type k c.now records.length lifetime) (cfg.pageName k)
    (c.opens (cfg.pageName k))
  obtain ⟨err', v₂, hget, hadd⟩ | ⟨o, v₂, place, start, -, hadd⟩ := hcomes.outcome lifetime
  swap
  · rw [hadd] at herr
    cases herr
  rw [hget] at hpages hsame
  rw [hadd]
  refine ⟨(hsame.global_eq.trans hslots.globalExpireAt_eq).trans hrelease, fun clock hclock hnow => ?_⟩
  -- entry by entry: the mapping, the reservation and the maintenance
  rw [View.stock, View.stock, List.filter_flatMap, List.filter_flatMap]
  refine List.flatMap_congr fun idx _ => ?_
  rw [hpages, hslots.shown horder.bounded hcomes.select hcomes.known hnow, hshown clock hclock]

end Slots

end DealsServer
