import Mathlib.Data.Finset.Card
import Mathlib.Data.List.Sort

/-!
# The first ones of a sorted list

`TopOf r all n l` says that `l` has the first `n` elements of `all` in an order by `r`, ties being in any order.

* `topOf_mergeSort`: sorting and cutting makes such a list, and cutting further makes a shorter one (`TopOf.take`).
* `TopOf.score_eq`: the scores of such a list are determined, and so are its elements up to ties
  (`TopOf.mem_iff`).
* `OnePer.take_iff`: a list of one element for each key loses none when it is cut behind all of them.
* `pairwise_mergeSort_score`: sorting by a comparison that compares scores, for the elements of the list.
* `exists_split`: where a sorted list passes a bound.
-/

namespace Selection

variable {α β : Type*} {r : α → α → Prop} {all l l' : List α} {n m : ℕ}

/-- The first `n` elements of `all`, sorted by `r`. -/
def TopOf (r : α → α → Prop) (all : List α) (n : ℕ) (l : List α) : Prop :=
  ∃ sorted : List α, sorted.Perm all ∧ sorted.Pairwise r ∧ l = sorted.take n

theorem topOf_mergeSort {le : α → α → Bool} (hle : ∀ a b, le a b = true → r a b)
    (htrans : ∀ a b c, le a b = true → le b c = true → le a c = true) (htotal : ∀ a b, (le a b || le b a) = true)
    (hperm : l.Perm all) (n : ℕ) : TopOf r all n ((l.mergeSort le).take n) :=
  ⟨l.mergeSort le, (List.mergeSort_perm l le).trans hperm,
    (List.pairwise_mergeSort htrans htotal l).imp fun {a b} h => hle a b h, rfl⟩

theorem TopOf.take (h : TopOf r all n l) (hle : m ≤ n) : TopOf r all m (l.take m) := by
  obtain ⟨sorted, hperm, hsorted, rfl⟩ := h
  exact ⟨sorted, hperm, hsorted, by rw [List.take_take, min_eq_left hle]⟩

theorem TopOf.length (h : TopOf r all n l) : l.length = min n all.length := by
  obtain ⟨sorted, hperm, -, rfl⟩ := h
  rw [List.length_take, hperm.length_eq]

theorem TopOf.mem (h : TopOf r all n l) {a : α} (ha : a ∈ l) : a ∈ all := by
  obtain ⟨sorted, hperm, -, rfl⟩ := h
  exact hperm.mem_iff.1 (List.mem_of_mem_take ha)

theorem TopOf.sorted (h : TopOf r all n l) : l.Pairwise r := by
  obtain ⟨sorted, -, hsorted, rfl⟩ := h
  exact hsorted.sublist (List.take_sublist n sorted)

theorem TopOf.nodup_map {f : α → β} (h : TopOf r all n l) (hall : (all.map f).Nodup) : (l.map f).Nodup := by
  obtain ⟨sorted, hperm, -, rfl⟩ := h
  rw [List.map_take]
  exact ((hperm.map f).nodup_iff.2 hall).sublist (List.take_sublist n _)

/-- What is left out comes after what is in the list. -/
theorem TopOf.leftOut (h : TopOf r all n l) {a b : α} (ha : a ∈ l) (hb : b ∈ all) (hout : b ∉ l) : r a b := by
  obtain ⟨sorted, hperm, hsorted, rfl⟩ := h
  have hin := hperm.mem_iff.2 hb
  rw [← List.take_append_drop n sorted] at hin hsorted
  rcases List.mem_append.1 hin with htake | hdrop
  · exact absurd htake hout
  · exact (List.pairwise_append.1 hsorted).2.2 a ha b hdrop

/-- A limit beyond all elements does not matter. -/
theorem TopOf.congr (h : TopOf r all n l) (hlen : min m all.length = min n all.length) : TopOf r all m l := by
  obtain ⟨sorted, hperm, hsorted, rfl⟩ := h
  refine ⟨sorted, hperm, hsorted, ?_⟩
  rw [List.take_eq_take_min, List.take_eq_take_min (i := m), hperm.length_eq, hlen]

section Score

variable [LinearOrder β] {f : α → β}

/-- **The scores are determined.** -/
theorem TopOf.score_eq (h : TopOf (fun a b => f b ≤ f a) all n l) (h' : TopOf (fun a b => f b ≤ f a) all n l') :
    l.map f = l'.map f := by
  obtain ⟨sorted, hperm, hsorted, rfl⟩ := h
  obtain ⟨sorted', hperm', hsorted', rfl⟩ := h'
  have hdescends : (sorted.map f).Pairwise (· ≥ ·) := List.pairwise_map.2 hsorted
  have hdescends' : (sorted'.map f).Pairwise (· ≥ ·) := List.pairwise_map.2 hsorted'
  have heq : sorted.map f = sorted'.map f :=
    List.Perm.eq_of_pairwise (fun _ _ _ _ hge hle => le_antisymm hle hge) hdescends hdescends'
      ((hperm.trans hperm'.symm).map f)
  rw [List.map_take, List.map_take, heq]

/-- **The elements are determined up to ties.** -/
theorem TopOf.mem_iff (h : TopOf (fun a b => f b ≤ f a) all n l) (h' : TopOf (fun a b => f b ≤ f a) all n l') {a : α}
    (hlow : ∃ b ∈ l', f b < f a) : a ∈ l ↔ a ∈ l' := by
  obtain ⟨b, hb, hlt⟩ := hlow
  constructor
  · intro ha
    by_contra hout
    exact absurd (h'.leftOut hb (h.mem ha) hout) (not_le.2 hlt)
  · intro ha
    obtain ⟨c, hc, hfc⟩ : ∃ c ∈ l, f c = f b := by
      rw [← List.mem_map, h.score_eq h']
      exact List.mem_map_of_mem hb
    by_contra hout
    have hle := h.leftOut hc (h'.mem ha) hout
    exact absurd (hfc ▸ hle) (not_le.2 hlt)

end Score

/-! ## Sorting by a score -/

/-- **Sorting by scores.** It is enough that the comparison is that of the scores on the elements of the list. -/
theorem pairwise_mergeSort_score [LinearOrder β] {f : α → β} {lt : α → α → Bool}
    (hlt : ∀ a ∈ l, ∀ b ∈ l, lt a b = true ↔ f a < f b) :
    (l.mergeSort fun a b => !lt b a).Pairwise fun a b => f a ≤ f b := by
  have hle : ∀ a ∈ l, ∀ b ∈ l, (!lt b a) = decide (f a ≤ f b) := by
    intro a ha b hb
    rw [Bool.eq_iff_iff, Bool.not_eq_true', ← Bool.not_eq_true, hlt b hb a ha, decide_eq_true_eq, not_lt]
  have hsame := List.map_mergeSort (s := fun a b => decide (f a ≤ f b)) (f := id) hle
  rw [List.map_id, List.map_id] at hsame
  rw [hsame]
  have htrans (a b c : α) (hab : decide (f a ≤ f b) = true) (hbc : decide (f b ≤ f c) = true) :
      decide (f a ≤ f c) = true := decide_eq_true (le_trans (of_decide_eq_true hab) (of_decide_eq_true hbc))
  have htotal (a b : α) : (decide (f a ≤ f b) || decide (f b ≤ f a)) = true := by simpa using le_total (f a) (f b)
  have hsorted := List.pairwise_mergeSort htrans htotal l
  exact hsorted.imp of_decide_eq_true

/-- **Where a sorted list passes a bound.** -/
theorem exists_split [LinearOrder β] {f : α → β} (bound : β) (hsorted : l.Pairwise fun a b => f a ≤ f b) :
    ∃ low high, l = low ++ high ∧ (∀ a ∈ low, f a < bound) ∧ ∀ a ∈ high, bound ≤ f a := by
  induction l with
  | nil => exact ⟨[], [], rfl, by simp, by simp⟩
  | cons a l ih =>
    obtain ⟨hfirst, hrest⟩ := List.pairwise_cons.1 hsorted
    by_cases ha : f a < bound
    · obtain ⟨low, high, rfl, hlow, hhigh⟩ := ih hrest
      refine ⟨a :: low, high, rfl, fun b hb => ?_, hhigh⟩
      rcases List.mem_cons.1 hb with rfl | hb
      · exact ha
      · exact hlow b hb
    · refine ⟨[], a :: l, rfl, by simp, fun b hb => ?_⟩
      rcases List.mem_cons.1 hb with rfl | hb
      · exact not_lt.1 ha
      · exact (not_lt.1 ha).trans (hfirst b hb)

/-! ## One element for each key -/

/-- `l` has elements of `all`, and one for each key that occurs there. -/
structure OnePer (f : α → β) (all l : List α) : Prop where
  mem : ∀ a ∈ l, a ∈ all
  nodup : (l.map f).Nodup
  keys : ∀ k, k ∈ l.map f ↔ k ∈ all.map f

section OnePer

variable {γ : Type*} {f : α → β} {g : α → γ}

/-- Functions that tell the same elements apart have the same lists of this kind. -/
theorem OnePer.congr (h : OnePer f all l) (hfg : ∀ a ∈ all, ∀ b ∈ all, f a = f b ↔ g a = g b) : OnePer g all l := by
  refine ⟨h.mem, ?_, fun k => ⟨fun hk => ?_, fun hk => ?_⟩⟩
  · have hpair := List.pairwise_map.1 h.nodup
    refine List.pairwise_map.2 (hpair.imp_of_mem fun {a b} ha hb hne hab => hne ?_)
    exact (hfg a (h.mem a ha) b (h.mem b hb)).2 hab
  · obtain ⟨a, ha, rfl⟩ := List.mem_map.1 hk
    exact List.mem_map_of_mem (h.mem a ha)
  · obtain ⟨a, ha, rfl⟩ := List.mem_map.1 hk
    obtain ⟨b, hb, hab⟩ := List.mem_map.1 ((h.keys (f a)).2 (List.mem_map_of_mem ha))
    rw [← (hfg b (h.mem b hb) a ha).1 hab]
    exact List.mem_map_of_mem hb

variable [DecidableEq β]

theorem OnePer.length_eq (h : OnePer f all l) : l.length = (all.map f).toFinset.card := by
  have hset : (all.map f).toFinset = (l.map f).toFinset := by
    ext k
    rw [List.mem_toFinset, List.mem_toFinset, h.keys]
  rw [hset, List.toFinset_card_of_nodup h.nodup, List.length_map]

/-- **Cutting loses no key** exactly when there are no more keys than the limit. -/
theorem OnePer.take_iff (h : OnePer f all l) (n : ℕ) :
    OnePer f all (l.take n) ↔ (all.map f).toFinset.card ≤ n := by
  rw [← h.length_eq]
  constructor
  · intro hcut
    have hlength := hcut.length_eq
    rw [← h.length_eq, List.length_take] at hlength
    omega
  · intro hle
    rwa [List.take_of_length_le hle]

end OnePer

end Selection
