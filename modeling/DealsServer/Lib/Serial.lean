import DealsServer.Lib.Semaphore
import DealsServer.Lib.Sequential

/-!
# Sections under a semaphore

A part of the shared state that processes change only while they hold a semaphore, each time by one of the changes
that are allowed, seen as a whole. Programs are those of `Semaphore`; while a process is in a section, the others may
look at the part and see it half changed.

* `Sectioned`: what a program does to the part, on its own. Inside a section the part is what the program left there.
* `Does`: the rules of `Code`, one for each way to put it together.
* `serial_run`: in every interleaving, the sections of all processes explain the part in the order in which they were
  completed, as if each of them was one step, and every process completed the sections of its calls in their order.
* `stopped_run`: what a process that stops in a section does to the others.
-/

namespace Semaphore

open StateMachine Sequential

variable {σ ι ν ρ ρ' ε τ γ α β ω P κ ℓ : Type}

/-- A part of the shared state, the semaphore it belongs to, the changes that are allowed, each with a label, and the
inputs that statements may meet. -/
structure Protected (σ ι ν κ ℓ : Type) where
  part : σ → κ
  name : ν
  change : κ → ℓ → κ → Prop
  meets : ι → Prop

/-- Where a program stands: if it is inside a section, the part at its beginning and now; and the sections it has
completed. -/
structure Stand (κ ℓ : Type) where
  inside : Option (κ × κ)
  done : List ℓ

namespace Protected

variable (p : Protected σ ι ν κ ℓ)

/-- Inside a section, the part is as the program left it. -/
def Sees (g : Stand κ ℓ) (s : σ) : Prop := ∀ x ∈ g.inside, p.part s = x.2

/-- After a statement that leaves the shared state `s`. -/
def acted (g : Stand κ ℓ) (s : σ) : Stand κ ℓ := { g with inside := g.inside.map fun x => (x.1, p.part s) }

end Protected

/-- A section that has changed the part is completed by an allowed change. -/
def Stand.Completes (change : κ → ℓ → κ → Prop) (g g' : Stand κ ℓ) : Prop :=
  ∃ x y, g.inside = some (x, y) ∧ g'.inside = none ∧
    (y = x ∧ g'.done = g.done ∨ ∃ l, change x l y ∧ g'.done = g.done ++ [l])

/-! ## What a program does to the part -/

section Sectioned

variable [DecidableEq ν] (p : Protected σ ι ν κ ℓ)

/-- Outside of sections the program leaves the part as it is; it completes each section that it gives the semaphore
back after; and when it ends, `Q` holds. -/
def Sectioned (Q : ρ → Stand κ ℓ → Prop) : Prog σ ι ν ρ → Stand κ ℓ → Prop
  | .done r, g => Q r g
  | .act f k, g => ∀ i s, p.meets i → p.Sees g s →
    (g.inside = none → p.part (f i s) = p.part s) ∧ Sectioned Q (k i s) (p.acted g (f i s))
  | .wait m k, g =>
    Sectioned Q (k false) g ∧
      if m = p.name then g.inside = none → ∀ x, Sectioned Q (k true) ⟨some (x, x), g.done⟩ else Sectioned Q (k true) g
  | .post m k, g =>
    Sectioned Q (k false) g ∧
      if m = p.name then ∃ g', g.Completes p.change g' ∧ Sectioned Q (k true) g' else Sectioned Q (k true) g
  | .abort, _ => True

variable {p}

/-- One program after another. -/
theorem Sectioned.bind {Q : ρ → Stand κ ℓ → Prop} {Q' : ρ' → Stand κ ℓ → Prop} {f : ρ → Prog σ ι ν ρ'}
    {q : Prog σ ι ν ρ} {g : Stand κ ℓ} (hq : Sectioned p Q q g) (hf : ∀ r g, Q r g → Sectioned p Q' (f r) g) :
    Sectioned p Q' (q.bind f) g := by
  induction q generalizing g with
  | done r => exact hf r g hq
  | act h k ih => exact fun i s hi hs => ⟨(hq i s hi hs).1, ih i s (hq i s hi hs).2⟩
  | wait m k ih =>
    refine ⟨ih false hq.1, ?_⟩
    have hserved := hq.2
    split_ifs at hserved ⊢ with hm
    · exact fun hnone x => ih true (hserved hnone x)
    · exact ih true hserved
  | post m k ih =>
    refine ⟨ih false hq.1, ?_⟩
    have hserved := hq.2
    split_ifs at hserved ⊢ with hm
    · obtain ⟨g', hdone, hk⟩ := hserved
      exact ⟨g', hdone, ih true hk⟩
    · exact ih true hserved
  | abort => trivial

theorem Sectioned.mono {Q Q' : ρ → Stand κ ℓ → Prop} (hQ : ∀ r g, Q r g → Q' r g) {q : Prog σ ι ν ρ} {g : Stand κ ℓ}
    (hq : Sectioned p Q q g) : Sectioned p Q' q g := by
  rw [← bind_done q]
  exact hq.bind hQ

end Sectioned

/-! ## Rules -/

section Rules

variable [DecidableEq ν] (p : Protected σ (Option ε × ι) ν κ ℓ)

/-- `Q` of a result, or `E` after an exception. -/
def Ending (Q : α → Stand κ ℓ → τ → Prop) (E : Stand κ ℓ → τ → Prop) : Except ε α × τ → Stand κ ℓ → Prop
  | (.ok a, own), g => Q a g own
  | (.error _, own), g => E g own

/-- From each state with `I` the code ends with `Q`, or throws with `E`. -/
def Does (I : Stand κ ℓ → τ → Prop) (m : Code σ ι ν ε τ α) (Q : α → Stand κ ℓ → τ → Prop) (E : Stand κ ℓ → τ → Prop) :
    Prop :=
  ∀ g own, I g own → Sectioned p (Ending Q E) (m own) g

variable {p} {I : Stand κ ℓ → τ → Prop} {Q : α → Stand κ ℓ → τ → Prop} {R : β → Stand κ ℓ → τ → Prop}
  {E : Stand κ ℓ → τ → Prop}

theorem Ending.mono {Q' : α → Stand κ ℓ → τ → Prop} {E' : Stand κ ℓ → τ → Prop}
    (hQ : ∀ a g own, Q a g own → Q' a g own) (hE : ∀ g own, E g own → E' g own) (x : Except ε α × τ) (g : Stand κ ℓ)
    (hx : Ending Q E x g) :
    Ending Q' E' x g := by
  rcases x with ⟨e | a, own⟩
  · exact hE g own hx
  · exact hQ a g own hx

/-- What holds whether the code throws or not. -/
theorem ending_same {g : Stand κ ℓ} {own : τ} (h : I g own) (r : Except ε α) : Ending (fun _ => I) I (r, own) g := by
  rcases r with e | a
  · exact h
  · exact h

theorem Does.mono {I' : Stand κ ℓ → τ → Prop} {Q' : α → Stand κ ℓ → τ → Prop} {E' : Stand κ ℓ → τ → Prop}
    {m : Code σ ι ν ε τ α} (hm : Does p I m Q E) (hI : ∀ g own, I' g own → I g own)
    (hQ : ∀ a g own, Q a g own → Q' a g own) (hE : ∀ g own, E g own → E' g own) : Does p I' m Q' E' := by
  intro g own hown
  exact (hm g own (hI g own hown)).mono (Ending.mono hQ hE)

/-- Less is said where an exception is thrown. -/
theorem Does.throwing {E' : Stand κ ℓ → τ → Prop} {m : Code σ ι ν ε τ α} (hm : Does p I m Q E)
    (hE : ∀ g own, E g own → E' g own) : Does p I m Q E' := hm.mono (fun _ _ h => h) (fun _ _ _ h => h) hE

/-- What is assumed of a state may be assumed of a variable. -/
theorem does_of_eq {m : Code σ ι ν ε τ α} (hm : ∀ b c, I b c → Does p (fun g own => g = b ∧ own = c) m Q E) :
    Does p I m Q E := fun g own hown => hm g own hown g own ⟨rfl, rfl⟩

theorem does_or {I' : Stand κ ℓ → τ → Prop} {m : Code σ ι ν ε τ α} (h : Does p I m Q E) (h' : Does p I' m Q E) :
    Does p (fun g own => I g own ∨ I' g own) m Q E := fun g own => Or.rec (h g own) (h' g own)

/-- What holds for some value may be assumed for a variable. -/
theorem does_exists {I : γ → Stand κ ℓ → τ → Prop} {m : Code σ ι ν ε τ α} (h : ∀ x, Does p (I x) m Q E) :
    Does p (fun g own => ∃ x, I x g own) m Q E := fun g own => Exists.rec fun x => h x g own

/-- What is assumed beside the state. -/
theorem does_and {c : Prop} {m : Code σ ι ν ε τ α} (h : c → Does p I m Q E) :
    Does p (fun g own => I g own ∧ c) m Q E := fun g own hown => h hown.2 g own hown.1

theorem does_pure {a : α} (h : ∀ g own, I g own → Q a g own) : Does p I (pure a : Code σ ι ν ε τ α) Q E := h

theorem does_throw {e : ε} (h : ∀ g own, I g own → E g own) : Does p I (Code.throw e : Code σ ι ν ε τ α) Q E := h

theorem does_get {Q : τ → Stand κ ℓ → τ → Prop} (h : ∀ g own, I g own → Q own g own) :
    Does p I (Code.get : Code σ ι ν ε τ τ) Q E := h

theorem does_modify {Q : Unit → Stand κ ℓ → τ → Prop} {f : τ → τ} (h : ∀ g own, I g own → Q () g (f own)) :
    Does p I (Code.modify f : Code σ ι ν ε τ Unit) Q E := h

/-- **One part after another.** What is thrown first is the outcome. -/
theorem does_bind {m : Code σ ι ν ε τ α} {f : α → Code σ ι ν ε τ β} (M : α → Stand κ ℓ → τ → Prop)
    (hm : Does p I m M E) (hf : ∀ a, Does p (M a) (f a) R E) : Does p I (m >>= f) R E := by
  intro g own hown
  refine (hm g own hown).bind ?_
  rintro ⟨e | a, own⟩ g h
  · exact h
  · exact hf a g own h

theorem does_ite {c : Prop} [Decidable c] {m m' : Code σ ι ν ε τ α} (h : c → Does p I m Q E)
    (h' : ¬ c → Does p I m' Q E) : Does p I (if c then m else m') Q E := by
  split_ifs with hc
  · exact h hc
  · exact h' hc

/-- **A statement**, which is not made to throw: outside of sections it leaves the part as it is. -/
theorem does_stmt (hquiet : ∀ i, p.meets i → i.1 = none) {f : ι → σ → τ → Except ε α × σ × τ}
    (h : ∀ i s g own, I g own → p.Sees g s → (g.inside = none → p.part (f i s own).2.1 = p.part s) ∧
      Ending Q E ((f i s own).1, (f i s own).2.2) (p.acted g (f i s own).2.1)) : Does p I (Code.stmt f) Q E := by
  rintro g own hown ⟨fails, i⟩ s hi hs
  obtain rfl := hquiet _ hi
  exact h i s g own hown hs

theorem does_wait {m : ν} {Q : Bool → Stand κ ℓ → τ → Prop} (hfailed : ∀ g own, I g own → Q false g own)
    (hserved : ∀ g own, I g own →
      if m = p.name then g.inside = none → ∀ x, Q true ⟨some (x, x), g.done⟩ own else Q true g own) :
    Does p I (Code.wait m : Code σ ι ν ε τ Bool) Q E := fun g own hown => ⟨hfailed g own hown, hserved g own hown⟩

theorem does_post {m : ν} {Q : Bool → Stand κ ℓ → τ → Prop} (hfailed : ∀ g own, I g own → Q false g own)
    (hserved : ∀ g own, I g own →
      if m = p.name then ∃ g', g.Completes p.change g' ∧ Q true g' own else Q true g own) :
    Does p I (Code.post m : Code σ ι ν ε τ Bool) Q E := fun g own hown => ⟨hfailed g own hown, hserved g own hown⟩

/-- Code for a part of the state of the process, from each state around it. -/
theorem does_zoom {view : τ → γ} {update : γ → τ → τ} {m : Code σ ι ν ε γ α}
    (hm : ∀ own, Does p (fun g object => object = view own ∧ I g own) m (fun a g object => Q a g (update object own))
      fun g object => E g (update object own)) : Does p I (Code.zoom view update m) Q E := by
  intro g own hown
  refine (hm own g (view own) ⟨rfl, hown⟩).bind ?_
  rintro ⟨e | a, object⟩ g h
  · exact h
  · exact h

/-- **A scope with a destructor**, which runs on each way out. -/
theorem does_guarded {m : Code σ ι ν ε τ α} {destructor : Code σ ι ν ε τ Unit} (M : α → Stand κ ℓ → τ → Prop)
    (F : Stand κ ℓ → τ → Prop) (hm : Does p I m M F)
    (hdone : ∀ a, Does p (M a) destructor (fun _ => Q a) fun _ _ => True)
    (hthrown : Does p F destructor (fun _ => E) fun _ _ => True) : Does p I (Code.guarded m destructor) Q E := by
  intro g own hown
  refine (hm g own hown).bind ?_
  rintro ⟨e | a, own⟩ g h
  · refine (hthrown g own h).bind ?_
    rintro ⟨e' | u, own⟩ g h
    · trivial
    · exact h
  · refine (hdone a g own h).bind ?_
    rintro ⟨e' | u, own⟩ g h
    · trivial
    · exact h

theorem does_withObject {object : γ} {m : Code σ ι ν ε (τ × γ) α} {destructor : Code σ ι ν ε γ Unit}
    (hm : Does p (fun g x => I g x.1 ∧ x.2 = object)
      (Code.guarded m (Code.zoom Prod.snd (fun object own => (own.1, object)) destructor))
      (fun a g x => Q a g x.1) fun g x => E g x.1) : Does p I (Code.withObject object m destructor) Q E := by
  intro g own hown
  refine (hm g (own, object) ⟨hown, rfl⟩).bind ?_
  rintro ⟨e | a, own⟩ g h
  · exact h
  · exact h

end Rules

/-! ## Interleavings -/

/-- The changes of a list, one after another. -/
inductive Serial (change : κ → ℓ → κ → Prop) (x : κ) : List ℓ → κ → Prop
  | nil : Serial change x [] x
  | snoc {labels : List ℓ} {y : κ} {l : ℓ} {z : κ} (h : Serial change x labels y) (hl : change y l z) :
    Serial change x (labels ++ [l]) z

section Guards

variable [DecidableEq P] (p : Protected σ ι ν κ ℓ)

/-- The semaphore is free and nobody is in a section, or one process is. -/
def Guards (x₀ : κ) (shared : σ) (value : ℕ) (log : List (P × ℓ)) (g : P → Stand κ ℓ) : Prop :=
  value = 1 ∧ (∀ a, (g a).inside = none) ∧ Serial p.change x₀ (log.map Prod.snd) (p.part shared) ∨
    value = 0 ∧ ∃ a x, (g a).inside = some (x, p.part shared) ∧ (∀ b, b ≠ a → (g b).inside = none) ∧
      Serial p.change x₀ (log.map Prod.snd) x

variable {p} {x₀ : κ} {shared shared' : σ} {value : ℕ} {log : List (P × ℓ)} {g : P → Stand κ ℓ} {a : P} {g' : Stand κ ℓ}

/-- A process sees the part as it left it. -/
theorem Guards.sees (h : Guards p x₀ shared value log g) (a : P) : p.Sees (g a) shared := by
  intro x hx
  obtain ⟨-, hnone, -⟩ | ⟨-, b, y, hb, hothers, -⟩ := h
  · rw [hnone a] at hx
    cases hx
  · by_cases hab : a = b
    · subst hab
      rw [hb] at hx
      cases hx
      rfl
    · rw [hothers a hab] at hx
      cases hx

/-- Nobody else is in a section, and the semaphore is taken. -/
theorem Guards.held (h : Guards p x₀ shared value log g) (hin : (g a).inside.isSome) :
    value = 0 ∧ ∀ b, b ≠ a → (g b).inside = none := by
  obtain ⟨-, hnone, -⟩ | ⟨hvalue, b, y, hb, hothers, -⟩ := h
  · rw [hnone a] at hin
    cases hin
  · by_cases hab : a = b
    · subst hab
      exact ⟨hvalue, hothers⟩
    · rw [hothers a hab] at hin
      cases hin

/-- A process does something outside of sections. -/
theorem Guards.outside (h : Guards p x₀ shared value log g) (hout : (g a).inside = none) (hout' : g'.inside = none)
    (hpart : p.part shared' = p.part shared) : Guards p x₀ shared' value log (Function.update g a g') := by
  have hinside (b : P) : (Function.update g a g' b).inside = (g b).inside := by
    by_cases hb : b = a
    · subst hb
      rw [Function.update_self, hout, hout']
    · rw [Function.update_of_ne hb]
  unfold Guards
  simp only [hinside, hpart]
  exact h

/-- The process inside of a section goes on with it. -/
theorem Guards.inside (h : Guards p x₀ shared value log g) {x y : κ} (hin : (g a).inside = some (x, y))
    (hin' : g'.inside = some (x, p.part shared')) : Guards p x₀ shared' value log (Function.update g a g') := by
  obtain ⟨-, hnone, -⟩ | ⟨hvalue, b, z, hb, hothers, hserial⟩ := h
  · rw [hnone a] at hin
    cases hin
  have hab : a = b := by
    by_contra hne
    rw [hothers a hne] at hin
    cases hin
  subst hab
  rw [hb] at hin
  obtain ⟨rfl, -⟩ := Prod.mk.inj (Option.some.inj hin)
  refine .inr ⟨hvalue, a, z, ?_, fun c hc => ?_, hserial⟩
  · rw [Function.update_self, hin']
  · rw [Function.update_of_ne hc]
    exact hothers c hc

/-- A process enters a section. -/
theorem Guards.enter (h : Guards p x₀ shared value log g) (a : P) (g' : Stand κ ℓ) (hfree : 0 < value)
    (hin : g'.inside = some (p.part shared, p.part shared)) :
    (g a).inside = none ∧ Guards p x₀ shared (value - 1) log (Function.update g a g') := by
  obtain ⟨rfl, hnone, hserial⟩ | ⟨rfl, -⟩ := h
  swap
  · exact absurd hfree (lt_irrefl 0)
  refine ⟨hnone a, .inr ⟨rfl, a, _, ?_, fun b hb => ?_, hserial⟩⟩
  · rw [Function.update_self, hin]
  · rw [Function.update_of_ne hb]
    exact hnone b

/-- A process completes its section, which takes its place in the log if it has changed the part. -/
theorem Guards.complete (h : Guards p x₀ shared value log g) (hdone : (g a).Completes p.change g') :
    ∃ labels, g'.done = (g a).done ++ labels ∧
      Guards p x₀ shared (value + 1) (log ++ labels.map (Prod.mk a)) (Function.update g a g') := by
  obtain ⟨x, y, hin, hout, hchange⟩ := hdone
  obtain ⟨-, hnone, -⟩ | ⟨rfl, b, z, hb, hothers, hserial⟩ := h
  · rw [hnone a] at hin
    cases hin
  have hab : a = b := by
    by_contra hne
    rw [hothers a hne] at hin
    cases hin
  subst hab
  rw [hb] at hin
  obtain ⟨rfl, rfl⟩ := Prod.mk.inj (Option.some.inj hin)
  have hnone (c : P) : (Function.update g a g' c).inside = none := by
    by_cases hc : c = a
    · subst hc
      rw [Function.update_self, hout]
    · rw [Function.update_of_ne hc]
      exact hothers c hc
  obtain ⟨hsame, hlabels⟩ | ⟨l, hl, hlabels⟩ := hchange
  · refine ⟨[], by rw [hlabels, List.append_nil], .inl ⟨rfl, hnone, ?_⟩⟩
    rw [hsame]
    simpa using hserial
  · refine ⟨[l], hlabels, .inl ⟨rfl, hnone, ?_⟩⟩
    rw [List.map_append]
    exact hserial.snoc hl

end Guards

section Run

variable [DecidableEq P] [DecidableEq ν] (p : Protected σ ι ν κ ℓ) (code : ω → τ → Prog σ ι ν (ρ × τ))

/-- The call that leaves its process in this step, with what it returns. -/
def System.leaving (s : System P σ ι ν ρ τ) (m : Move P ω ι) : List (P × ρ) :=
  match (s.processes m.process).running with
  | some (.done r) => [(m.process, r.1)]
  | _ => []

/-- What the calls of a run returned, each with its process. -/
def returned : System P σ ι ν ρ τ → List (Move P ω ι) → List (P × ρ)
  | _, [] => []
  | s, m :: moves => s.leaving m ++ returned (s.step code m) moves

theorem returned_append (s : System P σ ι ν ρ τ) (before later : List (Move P ω ι)) :
    returned code s (before ++ later) =
      returned code s before ++ returned code (run (System.step code) s before) later := by
  induction before generalizing s with
  | nil => rfl
  | cons m before ih =>
    rw [List.cons_append, returned, ih, ← List.append_assoc]
    rfl

/-- The log explains a run: its sections, as whole steps, lead to the part wherever nobody holds the semaphore, and
those of a process are the sections of its calls, each explained by `Q`, and of the call it is in. -/
structure Explains (Q : ρ → List ℓ → Prop) (s : System P σ ι ν ρ τ) (moves : List (Move P ω ι)) (log : List (P × ℓ)) :
    Prop where
  part : ∃ x, Serial p.change (p.part s.shared) (log.map Prod.snd) x ∧
    ((run (System.step code) s moves).value p.name = 1 → p.part (run (System.step code) s moves).shared = x)
  calls : ∀ a, ∃ calls current, List.Forall₂ Q (ofClient a (returned code s moves)) calls ∧
    ofClient a log = calls.flatten ++ current

/-- Each call that begins in a state with `J` completes its sections, explains by them what it returns, and ends in such
a state. -/
def InSections (J : τ → Prop) (Q : ρ → List ℓ → Prop) : Prop :=
  ∀ op own, J own → Sectioned p (fun r g => g.inside = none ∧ J r.2 ∧ Q r.1 g.done) (code op own) ⟨none, []⟩

/-- A process holds the semaphore while it is in a section, and what is left of its call completes its sections. -/
def Process.Stays (J : τ → Prop) (Q : ρ → List ℓ → Prop) (q : Process σ ι ν ρ τ) (g : Stand κ ℓ) : Prop :=
  (q.Holds p.name ↔ g.inside.isSome) ∧
    match q.running with
    | none => g = ⟨none, []⟩ ∧ J q.own
    | some rest => Sectioned p (fun r g => g.inside = none ∧ J r.2 ∧ Q r.1 g.done) rest g

/-- The calls of a process account for its sections in the log. -/
def Accounts (Q : ρ → List ℓ → Prop) (results : List (P × ρ)) (log : List (P × ℓ)) (g : P → Stand κ ℓ) (a : P) : Prop :=
  ∃ calls, List.Forall₂ Q (ofClient a results) calls ∧ ofClient a log = calls.flatten ++ (g a).done

/-- The invariant: where each process stands, and what happened so far. -/
structure System.Stands (J : τ → Prop) (Q : ρ → List ℓ → Prop) (x₀ : κ) (s : System P σ ι ν ρ τ)
    (results : List (P × ρ)) (log : List (P × ℓ)) (g : P → Stand κ ℓ) : Prop where
  processes : ∀ a, (s.processes a).Stays p J Q (g a)
  accounts : ∀ a, Accounts Q results log g a
  guards : Guards p x₀ s.shared (s.value p.name) log g

/-- After a step of the process `a`: the sections that it completed, which it was in, follow the log, and the others
stand where they stood. -/
def System.Advances (J : τ → Prop) (Q : ρ → List ℓ → Prop) (x₀ : κ) (s' : System P σ ι ν ρ τ) (results : List (P × ρ))
    (log : List (P × ℓ)) (g : P → Stand κ ℓ) (a : P) : Prop :=
  ∃ (labels : List ℓ) (g' : P → Stand κ ℓ), s'.Stands p J Q x₀ results (log ++ labels.map (Prod.mk a)) g' ∧
    (∀ b, b ≠ a → g' b = g b) ∧ ((g a).inside = none → labels = [])

variable {p code} {J : τ → Prop} {Q : ρ → List ℓ → Prop} {x₀ : κ} {s s' : System P σ ι ν ρ τ} {results : List (P × ρ)}
  {log : List (P × ℓ)} {g : P → Stand κ ℓ} {a : P} {g' : Stand κ ℓ}

/-! ## One step -/

/-- One process has moved, and completed some sections. -/
theorem System.Stands.put (h : s.Stands p J Q x₀ results log g) {q : Process σ ι ν ρ τ} (labels : List ℓ)
    (hprocesses : s'.processes = Function.update s.processes a q) (hstays : q.Stays p J Q g')
    (hdone : g'.done = (g a).done ++ labels)
    (hguards : Guards p x₀ s'.shared (s'.value p.name) (log ++ labels.map (Prod.mk a)) (Function.update g a g')) :
    s'.Stands p J Q x₀ results (log ++ labels.map (Prod.mk a)) (Function.update g a g') where
  processes b := by
    rw [hprocesses]
    by_cases hb : b = a
    · subst hb
      rw [Function.update_self, Function.update_self]
      exact hstays
    · rw [Function.update_of_ne hb, Function.update_of_ne hb]
      exact h.processes b
  accounts b := by
    obtain ⟨calls, hcalls, hlog⟩ := h.accounts b
    refine ⟨calls, hcalls, ?_⟩
    by_cases hb : b = a
    · subst hb
      rw [Function.update_self, hdone, ← List.append_assoc, ← hlog]
      simp [ofClient, List.filter_map, Function.comp_def]
    · rw [Function.update_of_ne hb, ← hlog]
      simp [ofClient, List.filter_map, Function.comp_def, Ne.symm hb]
  guards := hguards

/-- A call leaves its process. -/
theorem System.Stands.leave (h : s.Stands p J Q x₀ results log g) {q : Process σ ι ν ρ τ} {r : ρ}
    (hprocesses : s'.processes = Function.update s.processes a q) (hidle : q.running = none) (hown : J q.own)
    (hfree : ¬ q.Holds p.name) (hr : Q r (g a).done) (hout : (g a).inside = none) (hshared : s'.shared = s.shared)
    (hvalue : s'.value = s.value) :
    s'.Stands p J Q x₀ (results ++ [(a, r)]) log (Function.update g a ⟨none, []⟩) where
  processes b := by
    rw [hprocesses]
    by_cases hb : b = a
    · subst hb
      rw [Function.update_self, Function.update_self, Process.Stays, hidle]
      exact ⟨iff_of_false hfree Bool.false_ne_true, rfl, hown⟩
    · rw [Function.update_of_ne hb, Function.update_of_ne hb]
      exact h.processes b
  accounts b := by
    obtain ⟨calls, hcalls, hlog⟩ := h.accounts b
    by_cases hb : b = a
    · subst hb
      refine ⟨calls ++ [(g b).done], ?_, ?_⟩
      · rw [ofClient_snoc_self]
        exact List.rel_append hcalls (.cons hr .nil)
      · rw [Function.update_self, hlog]
        simp
    · refine ⟨calls, ?_, ?_⟩
      · rwa [ofClient_snoc_ne hb]
      · rwa [Function.update_of_ne hb]
  guards := by
    rw [hvalue, hshared]
    exact h.guards.outside hout rfl rfl

/-- The process has moved, and completed no section. -/
theorem System.Stands.move (h : s.Stands p J Q x₀ results log g) {q : Process σ ι ν ρ τ} (g' : Stand κ ℓ)
    (hprocesses : s'.processes = Function.update s.processes a q) (hstays : q.Stays p J Q g')
    (hdone : g'.done = (g a).done)
    (hguards : Guards p x₀ s'.shared (s'.value p.name) log (Function.update g a g')) :
    s'.Stands p J Q x₀ results log (Function.update g a g') := by
  have hput := h.put [] hprocesses hstays (by rw [hdone, List.append_nil]) (by simpa using hguards)
  simpa using hput

/-- A step that completes no section. -/
theorem System.Stands.advances (g' : Stand κ ℓ) (h : s'.Stands p J Q x₀ results log (Function.update g a g')) :
    s'.Advances p J Q x₀ results log g a := by
  refine ⟨[], Function.update g a g', ?_, fun b hb => Function.update_of_ne hb .., fun _ => rfl⟩
  rwa [List.map_nil, List.append_nil]

theorem System.Stands.advances_self (h : s.Stands p J Q x₀ results log g) (a : P) :
    s.Advances p J Q x₀ results log g a := by
  have hsame : s.Stands p J Q x₀ results log (Function.update g a (g a)) := by rwa [Function.update_eq_self]
  exact hsame.advances _

/-- A call on a semaphore fails, or on one that is not looked at succeeds: the process goes on. -/
theorem System.Stands.goesOn (h : s.Stands p J Q x₀ results log g) {q : Process σ ι ν ρ τ}
    (hprocesses : s'.processes = Function.update s.processes a q) (hstays : q.Stays p J Q (g a))
    (hshared : s'.shared = s.shared) (hvalue : s'.value p.name = s.value p.name) :
    s'.Advances p J Q x₀ results log g a := by
  refine (h.move (g a) hprocesses hstays rfl ?_).advances _
  rw [hshared, hvalue, Function.update_eq_self]
  exact h.guards

variable {m : Move P ω ι} {l : ν} {k : Bool → Prog σ ι ν (ρ × τ)}

/-- **A step that waits**: it may begin a section. -/
theorem System.Stands.waits (h : s.Stands p J Q x₀ results log g)
    (hrun : (s.processes m.process).running = some (.wait l k)) :
    (s.step code m).Advances p J Q x₀ results log g m.process := by
  obtain ⟨hholds, hstays⟩ := h.processes m.process
  rw [hrun] at hstays
  obtain ⟨hfailed, hserved⟩ := hstays
  simp only [System.step, hrun]
  split_ifs with hcall hpos
  · by_cases hl : l = p.name
    · subst hl
      rw [if_pos rfl] at hserved
      obtain ⟨hnone, hguards⟩ := h.guards.enter m.process
        ⟨some (p.part s.shared, p.part s.shared), (g m.process).done⟩ hpos rfl
      refine (h.move ⟨some (p.part s.shared, p.part s.shared), _⟩ rfl ⟨?_, hserved hnone _⟩ rfl ?_).advances _
      · exact iff_of_true ((holds_append_self _).2 rfl) rfl
      · simpa only [Function.update_self, System.put] using hguards
    · rw [if_neg hl] at hserved
      refine h.goesOn rfl ⟨(holds_append_ne hl _).trans hholds, hserved⟩ rfl ?_
      exact Function.update_of_ne (Ne.symm hl) ..
  · exact h.advances_self m.process
  · exact h.goesOn rfl ⟨hholds, hfailed⟩ rfl rfl

/-- **A step that posts**: it may complete a section. -/
theorem System.Stands.posts (h : s.Stands p J Q x₀ results log g)
    (hrun : (s.processes m.process).running = some (.post l k)) :
    (s.step code m).Advances p J Q x₀ results log g m.process := by
  obtain ⟨hholds, hstays⟩ := h.processes m.process
  rw [hrun] at hstays
  obtain ⟨hfailed, hserved⟩ := hstays
  simp only [System.step, hrun]
  split_ifs with hcall
  · by_cases hl : l = p.name
    · subst hl
      rw [if_pos rfl] at hserved
      obtain ⟨g', hcompletes, hk⟩ := hserved
      obtain ⟨labels, hdone, hguards⟩ := h.guards.complete hcompletes
      obtain ⟨x, y, hin, hout, -⟩ := hcompletes
      refine ⟨labels, Function.update g m.process g', ?_, fun b hb => Function.update_of_ne hb .., fun hnone => ?_⟩
      · refine h.put labels rfl ⟨?_, hk⟩ hdone ?_
        · rw [hout]
          refine iff_of_false (fun hheld => ?_) Bool.false_ne_true
          cases (holds_append_self _).1 hheld
        · simpa only [Function.update_self, System.put] using hguards
      · rw [hin] at hnone
        cases hnone
    · rw [if_neg hl] at hserved
      refine h.goesOn rfl ⟨(holds_append_ne hl _).trans hholds, hserved⟩ rfl ?_
      exact Function.update_of_ne (Ne.symm hl) ..
  · exact h.goesOn rfl ⟨hholds, hfailed⟩ rfl rfl

/-- **A statement.** -/
theorem System.Stands.acts {f : ι → σ → σ} {k : ι → σ → Prog σ ι ν (ρ × τ)} (h : s.Stands p J Q x₀ results log g)
    (hrun : (s.processes m.process).running = some (.act f k)) (hmeets : p.meets m.input) :
    (s.step code m).Advances p J Q x₀ results log g m.process := by
  obtain ⟨hholds, hstays⟩ := h.processes m.process
  rw [hrun] at hstays
  obtain ⟨hquiet, hk⟩ := hstays m.input s.shared hmeets (h.guards.sees m.process)
  simp only [System.step, hrun]
  refine (h.move (p.acted (g m.process) (f m.input s.shared)) rfl ⟨?_, hk⟩ rfl ?_).advances _
  · rw [Protected.acted, Option.isSome_map]
    exact hholds
  · rcases hinside : (g m.process).inside with _ | ⟨x, y⟩
    · exact h.guards.outside hinside (by simp [Protected.acted, hinside]) (hquiet hinside)
    · exact h.guards.inside hinside (by simp [Protected.acted, hinside])

omit [DecidableEq P] [DecidableEq ν] in
theorem leaving_eq_nil (hnot : ∀ r, (s.processes m.process).running ≠ some (.done r)) : s.leaving m = [] := by
  unfold System.leaving
  split
  · rename_i r hr
    exact absurd hr (hnot r)
  · rfl

/-- **One step**: a process completes at most one section, and at most one call leaves it. -/
theorem System.Stands.step (hcode : InSections p code J Q) (h : s.Stands p J Q x₀ results log g) (m : Move P ω ι)
    (hmeets : p.meets m.input) :
    (s.step code m).Advances p J Q x₀ (results ++ s.leaving m) log g m.process := by
  have hstays := (h.processes m.process).2
  rcases hrun : (s.processes m.process).running with _ | rest
  · -- a call begins
    rw [hrun] at hstays
    obtain ⟨hstand, hown⟩ := hstays
    rw [leaving_eq_nil (by simp [hrun]), List.append_nil]
    simp only [System.step, hrun]
    refine (h.move ⟨none, []⟩ rfl ⟨?_, hcode m.op _ hown⟩ (by rw [hstand]) ?_).advances _
    · exact iff_of_false not_holds_nil Bool.false_ne_true
    · exact h.guards.outside (by rw [hstand]) rfl rfl
  cases rest with
  | done r =>
    rw [hrun] at hstays
    obtain ⟨hout, hown, hr⟩ := hstays
    have hfree : ¬ (s.processes m.process).Holds p.name := by
      rw [(h.processes m.process).1, hout]
      exact Bool.false_ne_true
    simp only [System.step, System.leaving, hrun]
    refine System.Stands.advances ⟨none, []⟩ ?_
    exact h.leave rfl rfl hown hfree hr hout rfl rfl
  | act f k =>
    rw [leaving_eq_nil (by simp [hrun]), List.append_nil]
    exact h.acts hrun hmeets
  | wait l k =>
    rw [leaving_eq_nil (by simp [hrun]), List.append_nil]
    exact h.waits hrun
  | post l k =>
    rw [leaving_eq_nil (by simp [hrun]), List.append_nil]
    exact h.posts hrun
  | abort =>
    rw [leaving_eq_nil (by simp [hrun]), List.append_nil]
    simp only [System.step, hrun]
    exact h.advances_self m.process

theorem System.Stands.of_init {shared : σ} {own : P → τ} (hown : ∀ a, J (own a)) :
    (System.init shared own : System P σ ι ν ρ τ).Stands p J Q (p.part shared) [] [] fun _ => ⟨none, []⟩ where
  processes a := ⟨iff_of_false not_holds_nil Bool.false_ne_true, rfl, hown a⟩
  accounts _ := ⟨[], .nil, rfl⟩
  guards := .inl ⟨rfl, fun _ => rfl, .nil⟩

/-- The sections of a run, with what its calls returned. -/
theorem System.Stands.run (hcode : InSections p code J Q)
    (h : s.Stands p J Q x₀ results log g) (moves : List (Move P ω ι)) (hmeets : ∀ m ∈ moves, p.meets m.input) :
    ∃ log' g', log <+: log' ∧
      (StateMachine.run (System.step code) s moves).Stands p J Q x₀ (results ++ returned code s moves) log' g' := by
  induction moves generalizing s results log g with
  | nil => exact ⟨log, g, List.prefix_rfl, by simpa [returned] using h⟩
  | cons m moves ih =>
    obtain ⟨labels, g₁, hstep, -, -⟩ := h.step hcode m (hmeets m List.mem_cons_self)
    obtain ⟨log', g', hprefix, hrun⟩ := ih hstep fun m' hm' => hmeets m' (List.mem_cons_of_mem m hm')
    refine ⟨log', g', (List.prefix_append _ _).trans hprefix, ?_⟩
    rwa [List.append_assoc] at hrun

/-- While a process in a section does not move, the others complete no section. -/
theorem System.Stands.others (hcode : InSections p code J Q) (h : s.Stands p J Q x₀ results log g)
    (hin : (g a).inside.isSome) (moves : List (Move P ω ι)) (hmeets : ∀ m ∈ moves, p.meets m.input)
    (hstops : ∀ m ∈ moves, m.process ≠ a) :
    ∃ g', g' a = g a ∧
      (StateMachine.run (System.step code) s moves).Stands p J Q x₀ (results ++ returned code s moves) log g' := by
  induction moves generalizing s results g with
  | nil => exact ⟨g, rfl, by simpa [returned] using h⟩
  | cons m moves ih =>
    obtain ⟨labels, g₁, hstep, hframe, hlabels⟩ := h.step hcode m (hmeets m List.mem_cons_self)
    have hne : m.process ≠ a := hstops m List.mem_cons_self
    rw [hlabels ((h.guards.held hin).2 _ hne), List.map_nil, List.append_nil] at hstep
    have hsame : g₁ a = g a := hframe a (Ne.symm hne)
    obtain ⟨g', hg', hrun⟩ := ih hstep (by rwa [hsame]) (fun m' hm' => hmeets m' (List.mem_cons_of_mem m hm'))
      fun m' hm' => hstops m' (List.mem_cons_of_mem m hm')
    refine ⟨g', hg'.trans hsame, ?_⟩
    rwa [List.append_assoc] at hrun

theorem System.Stands.explains {s₀ : System P σ ι ν ρ τ} {moves : List (Move P ω ι)}
    (h : (StateMachine.run (System.step code) s₀ moves).Stands p J Q (p.part s₀.shared) (returned code s₀ moves) log
      g) : Explains p code Q s₀ moves log where
  part := by
    obtain ⟨-, -, hserial⟩ | ⟨hvalue, a, x, -, -, hserial⟩ := h.guards
    · exact ⟨_, hserial, fun _ => rfl⟩
    · refine ⟨x, hserial, fun hfree => ?_⟩
      rw [hvalue] at hfree
      exact absurd hfree (by decide)
  calls a := by
    obtain ⟨calls, hcalls, hlog⟩ := h.accounts a
    exact ⟨calls, _, hcalls, hlog⟩

/-- **Sections are atomic.** In every interleaving one order of the sections explains the part and what the calls
returned, and more steps only add to it. -/
theorem serial_run (hcode : InSections p code J Q)
    (shared : σ) {own : P → τ} (hown : ∀ a, J (own a)) (before later : List (Move P ω ι))
    (hmeets : ∀ m ∈ before ++ later, p.meets m.input) :
    ∃ log log', log <+: log' ∧ Explains p code Q (.init shared own) before log ∧
      Explains p code Q (.init shared own) (before ++ later) log' := by
  have hinit : (System.init shared own : System P σ ι ν ρ τ).Stands p J Q (p.part shared) [] [] fun _ => ⟨none, []⟩ :=
    .of_init hown
  obtain ⟨log, g, -, hbefore⟩ := hinit.run hcode before fun m hm => hmeets m (List.mem_append_left _ hm)
  obtain ⟨log', g', hprefix, hlater⟩ := hbefore.run hcode later fun m hm => hmeets m (List.mem_append_right _ hm)
  refine ⟨log, log', hprefix, hbefore.explains, ?_⟩
  rw [List.append_assoc, ← returned_append, ← run_append] at hlater
  exact hlater.explains

/-- **A process that stops in a section keeps everybody else out.** The part stays as it left it, the semaphore stays
taken, and no section is completed. -/
theorem stopped_run (hcode : InSections p code J Q) (shared : σ) {own : P → τ} (hown : ∀ a, J (own a))
    (before later : List (Move P ω ι)) (hmeets : ∀ m ∈ before ++ later, p.meets m.input)
    (hholds : ((run (System.step code) (.init shared own) before).processes a).Holds p.name)
    (hstops : ∀ m ∈ later, m.process ≠ a) :
    ∃ log, Explains p code Q (.init shared own) before log ∧
      Explains p code Q (.init shared own) (before ++ later) log ∧
      p.part (run (System.step code) (.init shared own) (before ++ later)).shared =
        p.part (run (System.step code) (.init shared own) before).shared ∧
      (run (System.step code) (.init shared own) (before ++ later)).value p.name = 0 := by
  have hinit : (System.init shared own : System P σ ι ν ρ τ).Stands p J Q (p.part shared) [] [] fun _ => ⟨none, []⟩ :=
    .of_init hown
  obtain ⟨log, g, -, hbefore⟩ := hinit.run hcode before fun m hm => hmeets m (List.mem_append_left _ hm)
  have hin : (g a).inside.isSome := (hbefore.processes a).1.1 hholds
  obtain ⟨g', hsame, hlater⟩ :=
    hbefore.others hcode hin later (fun m hm => hmeets m (List.mem_append_right _ hm)) hstops
  obtain ⟨x, hx⟩ := Option.isSome_iff_exists.1 hin
  rw [List.nil_append] at hbefore hlater
  rw [← returned_append, ← run_append] at hlater
  refine ⟨log, hbefore.explains, hlater.explains, ?_, (hlater.guards.held (by rwa [hsame])).1⟩
  have hafter : p.part _ = x.2 := hlater.guards.sees a x (by rw [hsame, hx]; rfl)
  exact hafter.trans (hbefore.guards.sees a x hx).symm

end Run

end Semaphore
