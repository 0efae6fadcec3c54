import Mathlib.Algebra.BigOperators.Group.Finset.Piecewise
import Mathlib.Data.Multiset.Filter

/-!
# Bags that forget what is over

Every entry of a log has a time at which it is over. A store `Retains` the log up to a horizon if it has nothing but
entries of the log, and of these all that are not over at the horizon. `content` is what a row of bins has.

* `Retains.trans`, `Retains.add`: stores of stores, and stores that grow with their logs.
* `Retains.filter_eq`: what a question asks for is the same in the store, if it asks for nothing that is over.
* `retains_keep`, `Retains.fill`, `Retains.restart`: bins are given up, filled, and begun anew.
-/

namespace Retention

variable {β γ : Type*} {ends : β → ℕ} {h h' : ℕ} {store store' log : Multiset β}

/-- The store has entries of the log, and all that are not over at the horizon `h`. -/
def Retains (ends : β → ℕ) (h : ℕ) (store log : Multiset β) : Prop :=
  ∃ gone, log = store + gone ∧ ∀ x ∈ gone, ends x ≤ h

theorem Retains.refl (ends : β → ℕ) (h : ℕ) (log : Multiset β) : Retains ends h log log :=
  ⟨0, (add_zero log).symm, fun x hx => absurd hx (Multiset.notMem_zero x)⟩

theorem Retains.mono (hr : Retains ends h store log) (hle : h ≤ h') : Retains ends h' store log := by
  obtain ⟨gone, hlog, hover⟩ := hr
  exact ⟨gone, hlog, fun x hx => (hover x hx).trans hle⟩

theorem Retains.trans (hr : Retains ends h store store') (hr' : Retains ends h store' log) : Retains ends h store log := by
  obtain ⟨gone, rfl, hover⟩ := hr
  obtain ⟨gone', rfl, hover'⟩ := hr'
  refine ⟨gone + gone', add_assoc _ _ _, fun x hx => ?_⟩
  rcases Multiset.mem_add.1 hx with hx | hx
  · exact hover x hx
  · exact hover' x hx

/-- What comes into the log comes into the store. -/
theorem Retains.add (hr : Retains ends h store log) (new : Multiset β) : Retains ends h (store + new) (log + new) := by
  obtain ⟨gone, rfl, hover⟩ := hr
  exact ⟨gone, add_right_comm _ _ _, hover⟩

/-- Nothing but entries of the log. -/
theorem Retains.le (hr : Retains ends h store log) : store ≤ log := by
  obtain ⟨gone, rfl, -⟩ := hr
  exact Multiset.le_add_right store gone

theorem Retains.map (hr : Retains ends h store log) {ends' : γ → ℕ} (f : β → γ)
    (hends : ∀ x ∈ log, ends' (f x) ≤ ends x) : Retains ends' h (store.map f) (log.map f) := by
  obtain ⟨gone, rfl, hover⟩ := hr
  refine ⟨gone.map f, Multiset.map_add f store gone, fun y hy => ?_⟩
  obtain ⟨x, hx, rfl⟩ := Multiset.mem_map.1 hy
  exact (hends x (Multiset.mem_add.2 (.inr hx))).trans (hover x hx)

theorem Retains.filter (hr : Retains ends h store log) (p : β → Prop) [DecidablePred p] :
    Retains ends h (store.filter p) (log.filter p) := by
  obtain ⟨gone, rfl, hover⟩ := hr
  exact ⟨gone.filter p, Multiset.filter_add p store gone, fun x hx => hover x (Multiset.mem_of_mem_filter hx)⟩

/-- **A question about nothing that is over** is answered from the store as from the log. -/
theorem Retains.filter_eq (hr : Retains ends h store log) {p : β → Prop} [DecidablePred p]
    (hp : ∀ x ∈ log, p x → h < ends x) : store.filter p = log.filter p := by
  obtain ⟨gone, rfl, hover⟩ := hr
  have hgone : gone.filter p = 0 := by
    rw [Multiset.filter_eq_nil]
    intro x hx hpx
    have hlater := hp x (Multiset.mem_add.2 (.inr hx)) hpx
    have hearlier := hover x hx
    omega
  rw [Multiset.filter_add, hgone, add_zero]

/-! ## Bins -/

/-- What is in the first `n` bins. -/
def content (n : ℕ) (bins : ℕ → List β) : Multiset β := ∑ j ∈ Finset.range n, (bins j : Multiset β)

/-- The bins with the property, and no others. -/
def keep (p : ℕ → Prop) [DecidablePred p] (bins : ℕ → List β) (j : ℕ) : List β := if p j then bins j else []

variable {n i : ℕ} {bins : ℕ → List β}

theorem coe_flatMap (n : ℕ) (bins : ℕ → List β) : ((List.range n).flatMap bins : Multiset β) = content n bins := by
  induction n with
  | zero => rfl
  | succ n ih =>
    rw [content, Finset.sum_range_succ, ← content, ← ih, List.range_succ, List.flatMap_append]
    simp

theorem mem_content {x : β} : x ∈ content n bins ↔ ∃ j < n, x ∈ bins j := by
  rw [← coe_flatMap, Multiset.mem_coe, List.mem_flatMap]
  simp

theorem content_map (n : ℕ) (bins : ℕ → List β) (f : β → γ) :
    (content n bins).map f = content n fun j => (bins j).map f := by
  rw [← coe_flatMap, ← coe_flatMap, Multiset.map_coe, List.map_flatMap]

/-- Bins that are not kept are not looked at. -/
theorem flatMap_keep (p : ℕ → Prop) [DecidablePred p] (bins : ℕ → List β) (l : List ℕ) :
    l.flatMap (keep p bins) = (l.filter p).flatMap bins := by
  induction l with
  | nil => rfl
  | cons j l ih =>
    rw [List.flatMap_cons, ih, List.filter_cons, keep]
    by_cases hj : p j
    · rw [if_pos hj, if_pos (decide_eq_true hj), List.flatMap_cons]
    · rw [if_neg hj, if_neg (by simpa using hj), List.nil_append]

/-- One bin and the others. -/
theorem content_update (bins : ℕ → List β) (hi : i < n) (l : List β) :
    content n (Function.update bins i l) + (bins i : Multiset β) = content n bins + (l : Multiset β) := by
  have hfun : (fun j => (Function.update bins i l j : Multiset β)) =
      Function.update (fun j => (bins j : Multiset β)) i (l : Multiset β) := by
    funext j
    by_cases hj : j = i
    · rw [hj, Function.update_self, Function.update_self]
    · rw [Function.update_of_ne hj, Function.update_of_ne hj]
  rw [content, content, hfun, Finset.sum_update_of_mem (Finset.mem_range.2 hi),
    ← Finset.sum_sdiff (Finset.singleton_subset_iff.2 (Finset.mem_range.2 hi)), Finset.sum_singleton]
  rw [add_assoc, add_comm]

/-- **Bins are given up** that have nothing but what is over. -/
theorem retains_keep (p : ℕ → Prop) [DecidablePred p] (hover : ∀ j < n, ¬ p j → ∀ x ∈ bins j, ends x ≤ h) :
    Retains ends h (content n (keep p bins)) (content n bins) := by
  refine ⟨content n (keep (fun j => ¬ p j) bins), ?_, fun x hx => ?_⟩
  · rw [content, content, content, ← Finset.sum_add_distrib]
    refine Finset.sum_congr rfl fun j _ => ?_
    unfold keep
    by_cases hj : p j
    · rw [if_pos hj, if_neg (not_not_intro hj)]
      exact (add_zero _).symm
    · rw [if_neg hj, if_pos hj]
      exact (zero_add _).symm
  · obtain ⟨j, hj, hxj⟩ := mem_content.1 hx
    unfold keep at hxj
    split_ifs at hxj with hp
    · exact hover j hj hp x hxj
    · cases hxj

/-- **A bin is filled up.** -/
theorem Retains.fill (hr : Retains ends h (content n bins) log) (hi : i < n) (new : List β) :
    Retains ends h (content n (Function.update bins i (bins i ++ new))) (log + new) := by
  have hsum := content_update bins hi (bins i ++ new)
  have hcontent : content n (Function.update bins i (bins i ++ new)) = content n bins + (new : Multiset β) := by
    rw [← Multiset.coe_add, ← add_assoc, add_right_comm] at hsum
    exact add_right_cancel hsum
  rw [hcontent]
  exact hr.add new

/-- **A bin is begun anew**, when what it has is over. -/
theorem Retains.restart (hr : Retains ends h (content n bins) log) (hi : i < n) (hover : ∀ x ∈ bins i, ends x ≤ h)
    (new : List β) : Retains ends h (content n (Function.update bins i new)) (log + new) := by
  obtain ⟨gone, rfl, hgone⟩ := hr
  refine ⟨gone + (bins i : Multiset β), ?_, fun x hx => ?_⟩
  · have hsum := content_update bins hi new
    rw [add_comm gone, ← add_assoc, hsum, add_right_comm]
  · rcases Multiset.mem_add.1 hx with hx | hx
    · exact hgone x hx
    · exact hover x hx

end Retention
