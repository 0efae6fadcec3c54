import Mathlib.Data.Set.Finite.Lemmas

/-!
# Quotes

A quote belongs to a group and to an item, was made at a time, and names a price. A newer quote of an
item in its group outdates the older ones; the *current* quotes are those not outdated, and the
*cheapest* ones of a group are the current ones of least price.

* `exists_cheapest`: a finite book with a quote of a group has a cheapest one of that group.
* `cheapest_or_same`: if no outdated quote can hide another item's quote (`¬ Hidden`), then whatever
  costs no more than a cheapest quote is cheapest itself or quotes the same item.
-/

namespace Quote

/-- How quotes are read. -/
structure Reading (α κ τ π : Type*) where
  group : α → κ
  same : α → α → Prop
  time : α → τ
  price : α → π
  equivalence : Equivalence same

variable {α κ τ π : Type*} [LinearOrder τ] [LinearOrder π] (R : Reading α κ τ π) {S : Set α}

/-- `e` is a newer quote of the item of `d`. -/
def Reading.Outdates (e d : α) : Prop := R.group e = R.group d ∧ R.same e d ∧ R.time d < R.time e

/-- No quote of the book outdates `d`. -/
def Reading.Current (S : Set α) (d : α) : Prop := d ∈ S ∧ ∀ e ∈ S, ¬ R.Outdates e d

/-- A current quote of least price in its group. -/
def Reading.Cheapest (S : Set α) (d : α) : Prop :=
  R.Current S d ∧ ∀ e, R.Current S e → R.group e = R.group d → R.price d ≤ R.price e

/-- A quote `y` priced between an outdated quote `o` of another item and the quote `n` that outdates
it. -/
def Reading.Hidden (S : Set α) : Prop :=
  ∃ o ∈ S, ∃ y ∈ S, ∃ n ∈ S, R.Outdates n o ∧ R.group y = R.group o ∧ ¬ R.same y o ∧
    R.price o ≤ R.price y ∧ R.price y ≤ R.price n

omit [LinearOrder π] in
/-- A finite, inhabited set of quotes has one of largest time. -/
theorem exists_newest (hS : S.Finite) {d : α} (hd : d ∈ S) :
    ∃ n, R.Current S n ∧ R.group n = R.group d ∧ R.same n d := by
  have hfin : {e ∈ S | R.group e = R.group d ∧ R.same e d}.Finite := hS.subset fun e he => he.1
  obtain ⟨n, ⟨hn, hgroup, hsame⟩, hmax⟩ :=
    Set.exists_max_image _ R.time hfin ⟨d, hd, rfl, R.equivalence.refl d⟩
  refine ⟨n, ⟨hn, fun e he hout => ?_⟩, hgroup, hsame⟩
  have hle := hmax e ⟨he, hout.1.trans hgroup, R.equivalence.trans hout.2.1 hsame⟩
  exact absurd hout.2.2 (not_lt.2 hle)

theorem exists_cheapest (hS : S.Finite) {d : α} (hd : d ∈ S) :
    ∃ c, R.Cheapest S c ∧ R.group c = R.group d := by
  obtain ⟨n, hn, hgroup, -⟩ := exists_newest R hS hd
  have hfin : {e | R.Current S e ∧ R.group e = R.group d}.Finite := hS.subset fun e he => he.1.1
  obtain ⟨c, ⟨hc, hcg⟩, hmin⟩ := Set.exists_min_image _ R.price hfin ⟨n, hn, hgroup⟩
  exact ⟨c, ⟨hc, fun e he hg => hmin e ⟨he, hg.trans hcg⟩⟩, hcg⟩

/-- A quote no dearer than a cheapest one of its group is cheapest if it is current. -/
theorem Reading.Current.cheapest {c d : α} (hd : R.Current S d) (hc : R.Cheapest S c)
    (hg : R.group d = R.group c) (hle : R.price d ≤ R.price c) : R.Cheapest S d :=
  ⟨hd, fun e he hge => hle.trans (hc.2 e he (hge.trans hg))⟩

/-- **Nothing hides.** Without a hidden quote, whatever costs no more than a cheapest quote is cheapest or
quotes its item. -/
theorem cheapest_or_same (hS : S.Finite) (hno : ¬ R.Hidden S) {c d : α} (hc : R.Cheapest S c) (hd : d ∈ S)
    (hg : R.group d = R.group c) (hle : R.price d ≤ R.price c) : R.Cheapest S d ∨ R.same d c := by
  by_cases hcur : R.Current S d
  · exact .inl (hcur.cheapest R hc hg hle)
  · right
    by_contra hsame
    -- `d` is outdated, and its newest quote costs at least as much as `c`
    have hout : ∃ e ∈ S, R.Outdates e d := by
      by_contra hnone
      push Not at hnone
      exact hcur ⟨hd, hnone⟩
    obtain ⟨e, he, hed⟩ := hout
    obtain ⟨n, hn, hng, hns⟩ := exists_newest R hS he
    have htime : R.time e ≤ R.time n := not_lt.1 fun hlt =>
      hn.2 e he ⟨hng.symm, R.equivalence.symm hns, hlt⟩
    have hnd : R.Outdates n d := ⟨hng.trans hed.1, R.equivalence.trans hns hed.2.1, hed.2.2.trans_le htime⟩
    exact hno ⟨d, hd, c, hc.1.1, n, hn.1, hnd, hg.symm, fun h => hsame (R.equivalence.symm h), hle,
      hc.2 n hn (hnd.1.trans hg)⟩

end Quote
