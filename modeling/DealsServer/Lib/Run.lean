import Mathlib.Data.List.Basic

/-!
# Runs of a step function

`run step s as` folds the inputs `as` over the state `s`. `Always ok` says that every step of a run
meets `ok`, a condition on the state before the step and the input.

* `inv_run`: an invariant that every `ok` step keeps holds after an `Always ok` run.
* `good_run_iff`: when a step that misses `ok` does lasting damage, a run ends well exactly if it is
  `Always ok`; a side condition that is never regained may restrict the runs.
* `reaches_iff`: every state of the run is good exactly if it is `Always ok`.
* `Since`: a step of the run that no later step has undone.
-/

namespace StateMachine

variable {σ ι : Type*} {step : σ → ι → σ} {ok : σ → ι → Prop}

/-- The state after a list of inputs. -/
def run (step : σ → ι → σ) (s : σ) (as : List ι) : σ := as.foldl step s

@[simp] theorem run_nil (s : σ) : run step s [] = s := rfl

@[simp] theorem run_cons (s : σ) (a : ι) (as : List ι) : run step s (a :: as) = run step (step s a) as :=
  rfl

@[simp] theorem run_append (s : σ) (as bs : List ι) :
    run step s (as ++ bs) = run step (run step s as) bs := by
  simp [run]

/-- Every step of the run from `s` meets `ok`. -/
def Always (step : σ → ι → σ) (ok : σ → ι → Prop) : σ → List ι → Prop
  | _, [] => True
  | s, a :: as => ok s a ∧ Always step ok (step s a) as

@[simp] theorem always_nil (s : σ) : Always step ok s [] := trivial

@[simp] theorem always_cons (s : σ) (a : ι) (as : List ι) :
    Always step ok s (a :: as) ↔ ok s a ∧ Always step ok (step s a) as := Iff.rfl

theorem always_append (s : σ) (as bs : List ι) :
    Always step ok s (as ++ bs) ↔ Always step ok s as ∧ Always step ok (run step s as) bs := by
  induction as generalizing s with
  | nil => simp
  | cons a as ih => simp only [List.cons_append, always_cons, run_cons, ih, and_assoc]

theorem Always.imp {ok' : σ → ι → Prop} (h : ∀ s a, ok s a → ok' s a) {s : σ} {as : List ι}
    (hs : Always step ok s as) : Always step ok' s as := by
  induction as generalizing s with
  | nil => trivial
  | cons a as ih => exact ⟨h s a hs.1, ih hs.2⟩

theorem Always.and {ok' : σ → ι → Prop} {s : σ} {as : List ι} (h : Always step ok s as)
    (h' : Always step ok' s as) : Always step (fun s a => ok s a ∧ ok' s a) s as := by
  induction as generalizing s with
  | nil => trivial
  | cons a as ih => exact ⟨⟨h.1, h'.1⟩, ih h.2 h'.2⟩

/-- Conditions that agree wherever `Inv` holds, which every step keeps. -/
theorem always_iff {ok' : σ → ι → Prop} (Inv : σ → Prop) (hstep : ∀ s a, Inv s → Inv (step s a))
    (hok : ∀ s a, Inv s → (ok s a ↔ ok' s a)) {s : σ} (hs : Inv s) (as : List ι) :
    Always step ok s as ↔ Always step ok' s as := by
  induction as generalizing s with
  | nil => exact Iff.rfl
  | cons a as ih => exact and_congr (hok s a hs) (ih (hstep s a hs))

/-- A condition on the inputs alone. -/
theorem always_of_forall {P : ι → Prop} {as : List ι} (h : ∀ a ∈ as, P a) (s : σ) :
    Always step (fun _ a => P a) s as := by
  induction as generalizing s with
  | nil => trivial
  | cons a as ih => exact ⟨h a List.mem_cons_self, ih (fun b hb => h b (List.mem_cons_of_mem a hb)) _⟩

/-- What never decreases has been below its last bound all along. -/
theorem always_lt_of_mono {f : σ → ℕ} (hf : ∀ s a, f s ≤ f (step s a)) {bound : ℕ} {s : σ} {as : List ι}
    (h : f (run step s as) < bound) : Always step (fun s _ => f s < bound) s as := by
  have hmono : ∀ (as : List ι) s, f s ≤ f (run step s as) := by
    intro as
    induction as with
    | nil => exact fun s => Nat.le_refl _
    | cons a as ih => exact fun s => Nat.le_trans (hf s a) (ih _)
  induction as generalizing s with
  | nil => trivial
  | cons a as ih => exact ⟨Nat.lt_of_le_of_lt (hmono (a :: as) s) h, ih h⟩

instance decidableAlways [∀ s a, Decidable (ok s a)] : ∀ s as, Decidable (Always step ok s as)
  | _, [] => isTrue trivial
  | s, a :: as => @instDecidableAnd _ _ _ (decidableAlways (step s a) as)

/-- **The run rule.** What `ok` steps keep holds after every `Always ok` run. -/
theorem inv_run (Inv : σ → Prop) (hstep : ∀ s a, Inv s → ok s a → Inv (step s a)) {s : σ} {as : List ι} (hs : Inv s)
    (hok : Always step ok s as) : Inv (run step s as) := by
  induction as generalizing s with
  | nil => exact hs
  | cons a as ih => exact ih (hstep s a hs hok.1) hok.2

/-- What every step keeps holds after every run. -/
theorem inv_run_all (Inv : σ → Prop) (hstep : ∀ s a, Inv s → Inv (step s a)) {s : σ} (hs : Inv s) (as : List ι) :
    Inv (run step s as) := by
  induction as generalizing s with
  | nil => exact hs
  | cons a as ih => exact ih (hstep s a hs)

/-- **The exact run rule.** Runs are looked at only while `Live` holds, which is never regained. If `ok`
steps keep `Inv`, a step from `Inv` that misses `ok` leads to `Bad`, and `Bad` is never left, then a run
from `Inv` ends in a good state exactly if all its steps are `ok`. -/
theorem good_run_iff (Inv Bad Good Live : σ → Prop) (hlive : ∀ s a, Live (step s a) → Live s)
    (hok : ∀ s a, Inv s → Live (step s a) → ok s a → Inv (step s a))
    (hmiss : ∀ s a, Inv s → Live (step s a) → ¬ ok s a → Bad (step s a))
    (hbad : ∀ s a, Bad s → Live (step s a) → Bad (step s a)) (hgood : ∀ s, Inv s → Good s)
    (hngood : ∀ s, Bad s → ¬ Good s) {s : σ} (hs : Inv s) {as : List ι} (hend : Live (run step s as)) :
    Good (run step s as) ↔ Always step ok s as := by
  have live_start : ∀ (as : List ι) s, Live (run step s as) → Live s := by
    intro as
    induction as with
    | nil => exact fun s h => h
    | cons a as ih => exact fun s h => hlive s a (ih _ h)
  constructor
  · intro hg
    induction as generalizing s with
    | nil => trivial
    | cons a as ih =>
      have hl : Live (step s a) := live_start as _ hend
      by_cases h : ok s a
      · exact ⟨h, ih (hok s a hs hl h) hend hg⟩
      · have stays : ∀ (as : List ι) s, Bad s → Live (run step s as) → Bad (run step s as) := by
          intro as
          induction as with
          | nil => exact fun s h _ => h
          | cons a as ih => exact fun s h hl => ih _ (hbad s a h (live_start as _ hl)) hl
        exact absurd hg (hngood _ (stays as _ (hmiss s a hs hl h) hend))
  · intro h
    apply hgood
    induction as generalizing s with
    | nil => exact hs
    | cons a as ih => exact ih (hok s a hs (live_start as _ hend) h.1) hend h.2

/-- **The exact rule for all reached states.** If from `Inv` a step is `ok` exactly when it reaches a
good state, and then keeps `Inv`, every state of a run is good exactly if all its steps are `ok`; a condition
`side` may restrict the steps that are looked at. -/
theorem reaches_iff (side : σ → ι → Prop) (Inv Good : σ → Prop)
    (hok : ∀ s a, Inv s → side s a → ok s a → Inv (step s a))
    (hmiss : ∀ s a, Inv s → side s a → ¬ ok s a → ¬ Good (step s a)) (hgood : ∀ s, Inv s → Good s) {s : σ}
    (hs : Inv s) (as : List ι) (hside : Always step side s as) :
    (∀ k, Good (run step s (as.take k))) ↔ Always step ok s as := by
  constructor
  · intro hg
    induction as generalizing s with
    | nil => trivial
    | cons a as ih =>
      have h : ok s a := by
        by_contra hn
        exact hmiss s a hs hside.1 hn (hg 1)
      exact ⟨h, ih (hok s a hs hside.1 h) hside.2 fun k => hg (k + 1)⟩
  · intro h k
    have hall := hside.and h
    rw [← List.take_append_drop k as, always_append] at hall
    exact hgood _ (inv_run Inv (fun s a hs h => hok s a hs h.1 h.2) hs hall.1)

/-! ## What happened since -/

/-- The run has a step with `P`, and since then no step with `Q`. -/
def Since (step : σ → ι → σ) (P Q : σ → ι → Prop) (s : σ) (as : List ι) : Prop :=
  ∃ pre b mid, as = pre ++ b :: mid ∧ P (run step s pre) b ∧
    Always step (fun s a => ¬ Q s a) (run step s (pre ++ [b])) mid

variable {P Q : σ → ι → Prop} {s : σ} {as : List ι} {a : ι}

theorem since_last (h : P (run step s as) a) : Since step P Q s (as ++ [a]) := ⟨as, a, [], rfl, h, trivial⟩

theorem Since.snoc (h : Since step P Q s as) (ha : ¬ Q (run step s as) a) : Since step P Q s (as ++ [a]) := by
  obtain ⟨pre, b, mid, rfl, hb, hmid⟩ := h
  refine ⟨pre, b, mid ++ [a], by simp, hb, (always_append _ _ _).2 ⟨hmid, ?_, trivial⟩⟩
  rw [← run_append]
  simpa using ha

end StateMachine
