import DealsServer.Lib.Run
import Mathlib.Algebra.BigOperators.Group.Finset.Piecewise
import Mathlib.Data.Fintype.Basic

/-!
# Programs that share semaphores

A program is a tree of atomic actions on a shared state and of calls on named semaphores, which start at 1. A call may
fail, and a wait for a semaphore that is 0 can only fail or go on waiting. `Code` adds a state of its own and
exceptions, with the scopes at whose end a destructor runs.

* `run_mapResults`: what calls return makes no difference to a run.
* `Wp`: what holds when a program ends, whatever it meets on its way, with a count of one semaphore.
* `Triple`: the rules of `Code`, one for each way to put it together.
* `sound_run`: if every operation gives back what it acquires, then in every interleaving of any number of processes a
  semaphore has at most one holder, its value and its holders add up to 1, and an operation that has ended released
  each semaphore once for each time it acquired it.
-/

namespace Semaphore

open StateMachine

/-! ## Programs -/

/-- The rest of a program: it has ended, it acts on the shared state, or it calls a semaphore, and goes on with what the
call returns; `abort` ends the process. -/
inductive Prog (σ ι ν ρ : Type)
  | done (r : ρ)
  | act (f : ι → σ → σ) (k : ι → σ → Prog σ ι ν ρ)
  | wait (n : ν) (k : Bool → Prog σ ι ν ρ)
  | post (n : ν) (k : Bool → Prog σ ι ν ρ)
  | abort

variable {σ ι ν ρ ρ' ε τ γ α β ω P : Type}

/-- One program after another. -/
def Prog.bind (f : ρ → Prog σ ι ν ρ') : Prog σ ι ν ρ → Prog σ ι ν ρ'
  | done r => f r
  | act g k => act g fun i s => (k i s).bind f
  | wait n k => wait n fun b => (k b).bind f
  | post n k => post n fun b => (k b).bind f
  | abort => abort

theorem bind_done (p : Prog σ ι ν ρ) : p.bind .done = p := by
  induction p with
  | done r => rfl
  | act f k ih => exact congrArg (Prog.act f) (funext₂ ih)
  | wait n k ih => exact congrArg (Prog.wait n) (funext ih)
  | post n k ih => exact congrArg (Prog.post n) (funext ih)
  | abort => rfl

theorem bind_bind {ρ'' : Type} (p : Prog σ ι ν ρ) (f : ρ → Prog σ ι ν ρ') (f' : ρ' → Prog σ ι ν ρ'') :
    (p.bind f).bind f' = p.bind fun r => (f r).bind f' := by
  induction p with
  | done r => rfl
  | act g k ih => exact congrArg (Prog.act g) (funext₂ ih)
  | wait n k ih => exact congrArg (Prog.wait n) (funext ih)
  | post n k ih => exact congrArg (Prog.post n) (funext ih)
  | abort => rfl

/-- A program with the state `τ` of its process and exceptions `ε`. Each statement may be made to throw. -/
def Code (σ ι ν ε τ α : Type) : Type := τ → Prog σ (Option ε × ι) ν (Except ε α × τ)

namespace Code

instance : Monad (Code σ ι ν ε τ) where
  pure a := fun own => .done (.ok a, own)
  bind m f := fun own => (m own).bind fun
    | (.ok a, own) => f a own
    | (.error e, own) => .done (.error e, own)

theorem bind_assoc (m : Code σ ι ν ε τ α) (f : α → Code σ ι ν ε τ β) (f' : β → Code σ ι ν ε τ γ) :
    m >>= f >>= f' = m >>= fun a => f a >>= f' := by
  funext own
  refine (bind_bind (m own) _ _).trans (congrArg (m own).bind (funext ?_))
  rintro ⟨e | a, own⟩ <;> rfl

theorem bind_pure_unit (m : Code σ ι ν ε τ Unit) : (m >>= fun _ => pure ()) = m := by
  funext own
  refine (congrArg (m own).bind (funext ?_)).trans (bind_done (m own))
  rintro ⟨e | u, own⟩ <;> rfl

/-- Throw an exception. -/
def throw (e : ε) : Code σ ι ν ε τ α := fun own => .done (.error e, own)

/-- The state of the process. -/
def get : Code σ ι ν ε τ τ := fun own => .done (.ok own, own)

/-- Change the state of the process. -/
def modify (f : τ → τ) : Code σ ι ν ε τ Unit := fun own => .done (.ok (), f own)

/-- One statement. -/
def stmt (f : ι → σ → τ → Except ε α × σ × τ) : Code σ ι ν ε τ α := fun own =>
  .act (fun i s => if i.1.isSome then s else (f i.2 s own).2.1) fun i s =>
    match i.1 with
    | some e => .done (.error e, own)
    | none => .done ((f i.2 s own).1, (f i.2 s own).2.2)

/-- Wait for a semaphore; `false` if the call fails. -/
def wait (n : ν) : Code σ ι ν ε τ Bool := fun own => .wait n fun b => .done (.ok b, own)

/-- Post a semaphore; `false` if the call fails. -/
def post (n : ν) : Code σ ι ν ε τ Bool := fun own => .post n fun b => .done (.ok b, own)

/-- Code for a part of the state. -/
def zoom (view : τ → γ) (update : γ → τ → τ) (m : Code σ ι ν ε γ α) : Code σ ι ν ε τ α := fun own =>
  (m (view own)).bind fun x => .done (x.1, update x.2 own)

/-- A scope with a destructor, run when the scope is left, by an exception too. An exception of the destructor ends the
process. -/
def guarded (m : Code σ ι ν ε τ α) (destructor : Code σ ι ν ε τ Unit) : Code σ ι ν ε τ α := fun own =>
  (m own).bind fun x => (destructor x.2).bind fun
    | (.ok _, own) => .done (x.1, own)
    | (.error _, _) => .abort

/-- A scope with an object of its own. -/
def withObject (object : γ) (m : Code σ ι ν ε (τ × γ) α) (destructor : Code σ ι ν ε γ Unit) :
    Code σ ι ν ε τ α := fun own =>
  (guarded m (zoom Prod.snd (fun object own => (own.1, object)) destructor) (own, object)).bind fun x =>
    .done (x.1, x.2.1)

end Code

/-! ## Processes -/

inductive Event
  | acquired
  | released
  deriving DecidableEq, Repr

/-- A process: its state between operations, the rest of the operation it runs, and what this operation did to the
semaphores so far. -/
structure Process (σ ι ν ρ τ : Type) where
  own : τ
  running : Option (Prog σ ι ν (ρ × τ))
  events : List (ν × Event)

structure System (P σ ι ν ρ τ : Type) where
  shared : σ
  value : ν → ℕ
  processes : P → Process σ ι ν ρ τ

/-- A process moves: it begins `op` if it is idle, else it makes one step, in which it meets `input`, and a call on a
semaphore succeeds if `served`. -/
structure Move (P ω ι : Type) where
  process : P
  op : ω
  input : ι
  served : Bool

section Step

variable [DecidableEq P] [DecidableEq ν] (code : ω → τ → Prog σ ι ν (ρ × τ))

/-- The process has moved. -/
def System.put (s : System P σ ι ν ρ τ) (a : P) (p : Process σ ι ν ρ τ) : System P σ ι ν ρ τ :=
  { s with processes := Function.update s.processes a p }

/-- **One step.** -/
def System.step (s : System P σ ι ν ρ τ) (m : Move P ω ι) : System P σ ι ν ρ τ :=
  let p := s.processes m.process
  match p.running with
  | none => s.put m.process { p with running := some (code m.op p.own), events := [] }
  | some (.done r) => s.put m.process { p with own := r.2, running := none }
  | some (.act f k) =>
    { s.put m.process { p with running := some (k m.input s.shared) } with shared := f m.input s.shared }
  | some (.wait n k) =>
    if m.served then
      if 0 < s.value n then
        { s.put m.process { p with running := some (k true), events := p.events ++ [(n, .acquired)] } with
          value := Function.update s.value n (s.value n - 1) }
      else s
    else s.put m.process { p with running := some (k false) }
  | some (.post n k) =>
    if m.served then
      { s.put m.process { p with running := some (k true), events := p.events ++ [(n, .released)] } with
        value := Function.update s.value n (s.value n + 1) }
    else s.put m.process { p with running := some (k false) }
  | some .abort => s

/-- Idle processes, and semaphores that nobody holds. -/
def System.init (shared : σ) (own : P → τ) : System P σ ι ν ρ τ := ⟨shared, fun _ => 1, fun a => ⟨own a, none, []⟩⟩

namespace Process

/-- What the operation did to one semaphore. -/
def eventsOf (p : Process σ ι ν ρ τ) (n : ν) : List Event := (p.events.filter fun e => e.1 = n).map (·.2)

/-- The process holds the semaphore. -/
def Holds (p : Process σ ι ν ρ τ) (n : ν) : Prop := (p.eventsOf n).getLast? = some .acquired

instance (p : Process σ ι ν ρ τ) (n : ν) : Decidable (p.Holds n) := inferInstanceAs (Decidable (_ = _))

end Process

end Step

/-! ## Results -/

/-- A program with another result. -/
def Prog.mapResult (f : ρ → ρ') (p : Prog σ ι ν (ρ × τ)) : Prog σ ι ν (ρ' × τ) := p.bind fun r => .done (f r.1, r.2)

/-- A process whose call has another result. -/
def Process.mapResult (f : ρ → ρ') (p : Process σ ι ν ρ τ) : Process σ ι ν ρ' τ :=
  ⟨p.own, p.running.map (Prog.mapResult f), p.events⟩

/-- The processes, with other results of their calls. -/
def System.mapResults (f : ρ → ρ') (s : System P σ ι ν ρ τ) : System P σ ι ν ρ' τ :=
  ⟨s.shared, s.value, Process.mapResult f ∘ s.processes⟩

section Results

variable [DecidableEq P] [DecidableEq ν] {f : ρ → ρ'} {code : ω → τ → Prog σ ι ν (ρ × τ)}
  {code' : ω → τ → Prog σ ι ν (ρ' × τ)}

/-- **The results of calls make no difference** to a step. -/
theorem System.step_mapResults (hcode : ∀ op own, code' op own = (code op own).mapResult f) (s : System P σ ι ν ρ τ)
    (m : Move P ω ι) : (s.mapResults f).step code' m = (s.step code m).mapResults f := by
  have hput (p : Process σ ι ν ρ τ) : Process.mapResult f ∘ Function.update s.processes m.process p =
      Function.update (s.mapResults f).processes m.process (p.mapResult f) := Function.comp_update ..
  have hmoved : ((s.mapResults f).processes m.process).running =
      (s.processes m.process).running.map (Prog.mapResult f) := rfl
  rcases hrun : (s.processes m.process).running with _ | q
  · simp only [System.step, hmoved, hrun, Option.map_none, hcode, System.put]
    exact congrArg _ (hput ⟨_, some _, _⟩).symm
  rw [hrun, Option.map_some] at hmoved
  cases q with
  | done r =>
    simp only [System.step, hmoved, hrun, Prog.mapResult, Prog.bind, System.put]
    exact congrArg _ (hput ⟨_, none, _⟩).symm
  | act g k =>
    simp only [System.step, hmoved, hrun, Prog.mapResult, Prog.bind, System.put]
    exact congrArg _ (hput ⟨_, some _, _⟩).symm
  | wait n k =>
    simp only [System.step, hmoved, hrun, Prog.mapResult, Prog.bind, System.put]
    by_cases hserved : m.served
    · rw [if_pos hserved, if_pos hserved]
      by_cases hpos : 0 < s.value n
      · rw [if_pos hpos, if_pos (show 0 < (s.mapResults f).value n from hpos)]
        exact congrArg _ (hput ⟨_, some _, _⟩).symm
      · rw [if_neg hpos, if_neg (show ¬ 0 < (s.mapResults f).value n from hpos)]
    · rw [if_neg hserved, if_neg hserved]
      exact congrArg _ (hput ⟨_, some _, _⟩).symm
  | post n k =>
    simp only [System.step, hmoved, hrun, Prog.mapResult, Prog.bind, System.put]
    split_ifs
    · exact congrArg _ (hput ⟨_, some _, _⟩).symm
    · exact congrArg _ (hput ⟨_, some _, _⟩).symm
  | abort =>
    simp only [System.step, hmoved, hrun, Prog.mapResult, Prog.bind]

theorem run_mapResults (hcode : ∀ op own, code' op own = (code op own).mapResult f) (s : System P σ ι ν ρ τ)
    (moves : List (Move P ω ι)) :
    run (System.step code') (s.mapResults f) moves = (run (System.step code) s moves).mapResults f := by
  induction moves generalizing s with
  | nil => rfl
  | cons m moves ih => rw [run_cons, run_cons, System.step_mapResults hcode, ih]

end Results
/-- `k` times acquired, and each time released before the next. -/
def pairs (k : ℕ) : List Event := (List.replicate k [Event.acquired, Event.released]).flatten

/-! ## What a program does to one semaphore -/

section Wp

variable [DecidableEq ν]

/-- When the program ends, `Q` holds of its result and of whether it holds the semaphore `n` then. It never acquires
what it holds, as the value is 0 then, and it has to hold what it posts. -/
def Wp (n : ν) (Q : ρ → Bool → Prop) : Prog σ ι ν ρ → Bool → Prop
  | .done r, h => Q r h
  | .act _ k, h => ∀ i s, Wp n Q (k i s) h
  | .wait m k, h =>
    Wp n Q (k false) h ∧ if m = n then h = false → Wp n Q (k true) true else Wp n Q (k true) h
  | .post m k, h =>
    Wp n Q (k false) h ∧ if m = n then h = true ∧ Wp n Q (k true) false else Wp n Q (k true) h
  | .abort, _ => True

variable {n : ν}

/-- One program after another. -/
theorem Wp.bind {Q : ρ → Bool → Prop} {Q' : ρ' → Bool → Prop} {f : ρ → Prog σ ι ν ρ'} {p : Prog σ ι ν ρ} {h : Bool}
    (hp : Wp n Q p h) (hf : ∀ r h, Q r h → Wp n Q' (f r) h) : Wp n Q' (p.bind f) h := by
  induction p generalizing h with
  | done r => exact hf r h hp
  | act g k ih => exact fun i s => ih i s (hp i s)
  | wait m k ih =>
    refine ⟨ih false hp.1, ?_⟩
    have hserved := hp.2
    split_ifs at hserved ⊢ with hm
    · exact fun hfree => ih true (hserved hfree)
    · exact ih true hserved
  | post m k ih =>
    refine ⟨ih false hp.1, ?_⟩
    have hserved := hp.2
    split_ifs at hserved ⊢ with hm
    · exact ⟨hserved.1, ih true hserved.2⟩
    · exact ih true hserved
  | abort => trivial

theorem Wp.mono {Q Q' : ρ → Bool → Prop} (hQ : ∀ r h, Q r h → Q' r h) {p : Prog σ ι ν ρ} {h : Bool}
    (hp : Wp n Q p h) : Wp n Q' p h := by
  rw [← bind_done p]
  exact hp.bind hQ

/-! ## Rules -/

/-- `Q` of a result, or `E` after an exception. -/
def Outcome (Q : α → Bool → τ → Prop) (E : Bool → τ → Prop) : Except ε α × τ → Bool → Prop
  | (.ok a, own), h => Q a h own
  | (.error _, own), h => E h own

/-- From each state with `I` the code ends with `Q`, or throws with `E`. -/
def Triple (n : ν) (I : Bool → τ → Prop) (m : Code σ ι ν ε τ α) (Q : α → Bool → τ → Prop) (E : Bool → τ → Prop) : Prop :=
  ∀ h own, I h own → Wp n (Outcome Q E) (m own) h

/-- The code keeps `I`, also where it throws. -/
def Keeps (n : ν) (I : Bool → τ → Prop) (m : Code σ ι ν ε τ α) : Prop := Triple n I m (fun _ => I) I

variable {I : Bool → τ → Prop} {Q : α → Bool → τ → Prop} {R : β → Bool → τ → Prop} {E : Bool → τ → Prop}

theorem Outcome.mono {Q' : α → Bool → τ → Prop} {E' : Bool → τ → Prop} (hQ : ∀ a h own, Q a h own → Q' a h own)
    (hE : ∀ h own, E h own → E' h own) (x : Except ε α × τ) (h : Bool) (hx : Outcome Q E x h) : Outcome Q' E' x h := by
  rcases x with ⟨e | a, own⟩
  · exact hE h own hx
  · exact hQ a h own hx

theorem Triple.mono {I' : Bool → τ → Prop} {Q' : α → Bool → τ → Prop} {E' : Bool → τ → Prop} {m : Code σ ι ν ε τ α}
    (hm : Triple n I m Q E) (hI : ∀ h own, I' h own → I h own) (hQ : ∀ a h own, Q a h own → Q' a h own)
    (hE : ∀ h own, E h own → E' h own) : Triple n I' m Q' E' := by
  intro h own hown
  exact (hm h own (hI h own hown)).mono (Outcome.mono hQ hE)

/-- What is assumed of a state may be assumed of a variable. -/
theorem triple_of_eq {m : Code σ ι ν ε τ α} (hm : ∀ b c, I b c → Triple n (fun h own => h = b ∧ own = c) m Q E) :
    Triple n I m Q E := fun h own hown => hm h own hown h own ⟨rfl, rfl⟩

theorem triple_or {I' : Bool → τ → Prop} {m : Code σ ι ν ε τ α} (h : Triple n I m Q E) (h' : Triple n I' m Q E) :
    Triple n (fun b own => I b own ∨ I' b own) m Q E := fun b own => Or.rec (h b own) (h' b own)

theorem triple_pure {a : α} (h : ∀ b own, I b own → Q a b own) : Triple n I (pure a : Code σ ι ν ε τ α) Q E := h

theorem triple_throw {e : ε} (h : ∀ b own, I b own → E b own) : Triple n I (Code.throw e : Code σ ι ν ε τ α) Q E := h

theorem triple_get {Q : τ → Bool → τ → Prop} (h : ∀ b own, I b own → Q own b own) :
    Triple n I (Code.get : Code σ ι ν ε τ τ) Q E := h

theorem triple_modify {Q : Unit → Bool → τ → Prop} {f : τ → τ} (h : ∀ b own, I b own → Q () b (f own)) :
    Triple n I (Code.modify f : Code σ ι ν ε τ Unit) Q E := h

/-- **One part after another.** What is thrown first is the outcome. -/
theorem triple_bind {m : Code σ ι ν ε τ α} {f : α → Code σ ι ν ε τ β} (M : α → Bool → τ → Prop)
    (hm : Triple n I m M E) (hf : ∀ a, Triple n (M a) (f a) R E) : Triple n I (m >>= f) R E := by
  intro b own hown
  refine (hm b own hown).bind ?_
  rintro ⟨e | a, own⟩ b h
  · exact h
  · exact hf a b own h

theorem triple_ite {c : Prop} [Decidable c] {m m' : Code σ ι ν ε τ α} (h : c → Triple n I m Q E)
    (h' : ¬ c → Triple n I m' Q E) : Triple n I (if c then m else m') Q E := by
  split_ifs with hc
  · exact h hc
  · exact h' hc

/-- A statement that keeps `I`, and may be made to throw. -/
theorem keeps_stmt {f : ι → σ → τ → Except ε α × σ × τ} (hf : ∀ i s b own, I b own → I b (f i s own).2.2) :
    Keeps n I (Code.stmt f) := by
  rintro b own hown ⟨fails, i⟩ s
  rcases fails with _ | e
  · have hkept := hf i s b own hown
    rcases hresult : f i s own with ⟨e | a, s', own'⟩
    · rw [hresult] at hkept
      simpa [Wp, Outcome, hresult] using hkept
    · rw [hresult] at hkept
      simpa [Wp, Outcome, hresult] using hkept
  · exact hown

theorem Keeps.triple {m : Code σ ι ν ε τ α} (hm : Keeps n I m) (hE : ∀ h own, I h own → E h own) :
    Triple n I m (fun _ => I) E := hm.mono (fun _ _ h => h) (fun _ _ _ h => h) hE

theorem keeps_pure {a : α} : Keeps n I (pure a : Code σ ι ν ε τ α) := triple_pure fun _ _ h => h

theorem keeps_throw {e : ε} : Keeps n I (Code.throw e : Code σ ι ν ε τ α) := triple_throw fun _ _ h => h

theorem keeps_get : Keeps n I (Code.get : Code σ ι ν ε τ τ) := triple_get fun _ _ h => h

theorem keeps_bind {m : Code σ ι ν ε τ α} {f : α → Code σ ι ν ε τ β} (hm : Keeps n I m) (hf : ∀ a, Keeps n I (f a)) :
    Keeps n I (m >>= f) := triple_bind (fun _ => I) hm hf

theorem keeps_ite {c : Prop} [Decidable c] {m m' : Code σ ι ν ε τ α} (h : Keeps n I m) (h' : Keeps n I m') :
    Keeps n I (if c then m else m') := triple_ite (fun _ => h) fun _ => h'

theorem triple_wait {m : ν} {Q : Bool → Bool → τ → Prop} (hfailed : ∀ b own, I b own → Q false b own)
    (hserved : ∀ b own, I b own → if m = n then b = false → Q true true own else Q true b own) :
    Triple n I (Code.wait m : Code σ ι ν ε τ Bool) Q E := fun b own hown => ⟨hfailed b own hown, hserved b own hown⟩

theorem triple_post {m : ν} {Q : Bool → Bool → τ → Prop} (hfailed : ∀ b own, I b own → Q false b own)
    (hserved : ∀ b own, I b own → if m = n then b = true ∧ Q true false own else Q true b own) :
    Triple n I (Code.post m : Code σ ι ν ε τ Bool) Q E := fun b own hown => ⟨hfailed b own hown, hserved b own hown⟩

/-- Code for a part of the state, from each state around it. -/
theorem triple_zoom {view : τ → γ} {update : γ → τ → τ} {m : Code σ ι ν ε γ α}
    (hm : ∀ own, Triple n (fun b object => object = view own ∧ I b own) m (fun a b object => Q a b (update object own))
      fun b object => E b (update object own)) : Triple n I (Code.zoom view update m) Q E := by
  intro b own hown
  refine (hm own b (view own) ⟨rfl, hown⟩).bind ?_
  rintro ⟨e | a, object⟩ b h
  · exact h
  · exact h

/-- **A scope with a destructor**, which runs on each way out. -/
theorem triple_guarded {m : Code σ ι ν ε τ α} {destructor : Code σ ι ν ε τ Unit} (M : α → Bool → τ → Prop)
    (F : Bool → τ → Prop) (hm : Triple n I m M F)
    (hdone : ∀ a, Triple n (M a) destructor (fun _ => Q a) fun _ _ => True)
    (hthrown : Triple n F destructor (fun _ => E) fun _ _ => True) : Triple n I (Code.guarded m destructor) Q E := by
  intro b own hown
  refine (hm b own hown).bind ?_
  rintro ⟨e | a, own⟩ b h
  · refine (hthrown b own h).bind ?_
    rintro ⟨e' | u, own⟩ b h
    · trivial
    · exact h
  · refine (hdone a b own h).bind ?_
    rintro ⟨e' | u, own⟩ b h
    · trivial
    · exact h

theorem triple_withObject {object : γ} {m : Code σ ι ν ε (τ × γ) α} {destructor : Code σ ι ν ε γ Unit}
    (hm : Triple n (fun b x => I b x.1 ∧ x.2 = object)
      (Code.guarded m (Code.zoom Prod.snd (fun object own => (own.1, object)) destructor))
      (fun a b x => Q a b x.1) fun b x => E b x.1) : Triple n I (Code.withObject object m destructor) Q E := by
  intro b own hown
  refine (hm b (own, object) ⟨hown, rfl⟩).bind ?_
  rintro ⟨e | a, own⟩ b h
  · exact h
  · exact h

end Wp

/-! ## Programs that run alone -/

/-- The program runs alone: each statement meets `i`, and a wait for `n` succeeds if `served n`. -/
def Prog.alone (i : ι) (served : ν → Bool) : Prog σ ι ν ρ → σ → Option (ρ × σ)
  | done r, s => some (r, s)
  | act f k, s => (k i s).alone i served (f i s)
  | wait n k, s => (k (served n)).alone i served s
  | post _ k, s => (k true).alone i served s
  | abort, _ => none

theorem Prog.alone_bind {i : ι} {served : ν → Bool} {f : ρ → Prog σ ι ν ρ'} {p : Prog σ ι ν ρ} {s : σ} {x : ρ × σ}
    (hp : p.alone i served s = some x) : (p.bind f).alone i served s = (f x.1).alone i served x.2 := by
  induction p generalizing s with
  | done r =>
    obtain rfl := Option.some.inj hp
    rfl
  | act g k ih => exact ih i s hp
  | wait n k ih => exact ih (served n) hp
  | post n k ih => exact ih true hp
  | abort => exact absurd hp (by simp [Prog.alone])

/-- Code that runs alone, and whose statements are not made to throw. -/
def Code.alone (i : ι) (served : ν → Bool) (m : Code σ ι ν ε τ α) (own : τ) (s : σ) : Option ((Except ε α × τ) × σ) :=
  (m own).alone (none, i) served s

section Alone

variable {i : ι} {served : ν → Bool} {m : Code σ ι ν ε τ α} {own own' : τ} {s s' : σ} {a : α} {e : ε}

theorem Code.alone_stmt (f : ι → σ → τ → Except ε α × σ × τ) :
    (Code.stmt f : Code σ ι ν ε τ α).alone i served own s = some (((f i s own).1, (f i s own).2.2), (f i s own).2.1) := rfl

theorem Code.alone_bind_ok {f : α → Code σ ι ν ε τ β} (hm : m.alone i served own s = some ((.ok a, own'), s')) :
    (m >>= f).alone i served own s = (f a).alone i served own' s' := Prog.alone_bind hm

theorem Code.alone_bind_error {f : α → Code σ ι ν ε τ β}
    (hm : m.alone i served own s = some ((.error e, own'), s')) :
    (m >>= f).alone i served own s = some ((.error e, own'), s') := Prog.alone_bind hm

theorem Code.alone_zoom (view : τ → γ) (update : γ → τ → τ) (own : τ) {m : Code σ ι ν ε γ α} {x : Except ε α × γ}
    (hm : m.alone i served (view own) s = some (x, s')) :
    (Code.zoom view update m).alone i served own s = some ((x.1, update x.2 own), s') := Prog.alone_bind hm

/-- The destructor runs after the scope. -/
theorem Code.alone_guarded {destructor : Code σ ι ν ε τ Unit} {x : Except ε α × τ} {s'' : σ}
    (hm : m.alone i served own s = some (x, s'))
    (hd : destructor.alone i served x.2 s' = some ((.ok (), own'), s'')) :
    (Code.guarded m destructor).alone i served own s = some ((x.1, own'), s'') :=
  (Prog.alone_bind hm).trans (Prog.alone_bind hd)

theorem Code.alone_withObject {object : γ} {m : Code σ ι ν ε (τ × γ) α} {destructor : Code σ ι ν ε γ Unit}
    {x : Except ε α × τ × γ}
    (hm : (Code.guarded m (Code.zoom Prod.snd (fun object own => (own.1, object)) destructor)).alone i served
      (own, object) s = some (x, s')) :
    (Code.withObject object m destructor).alone i served own s = some ((x.1, x.2.1), s') := Prog.alone_bind hm

end Alone

/-! ## Interleavings -/

section Run

variable [DecidableEq P] [Fintype P] [DecidableEq ν] {code : ω → τ → Prog σ ι ν (ρ × τ)} {J : τ → Prop}
  {s s' : System P σ ι ν ρ τ} {n : ν}

/-- Each operation that begins in a state with `J` releases what it acquires, and ends in such a state. -/
def Balanced (J : τ → Prop) (code : ω → τ → Prog σ ι ν (ρ × τ)) : Prop :=
  ∀ op own, J own → ∀ n, Wp n (fun r h => h = false ∧ J r.2) (code op own) false

/-- The processes that hold the semaphore. -/
def System.holders (s : System P σ ι ν ρ τ) (n : ν) : Finset P :=
  Finset.univ.filter fun a => (s.processes a).Holds n

/-- The operation acquired the semaphore `n` and released it again, each time, and holds it now if `h`. -/
def Process.Follows (p : Process σ ι ν ρ τ) (n : ν) (h : Bool) : Prop :=
  ∃ k, p.eventsOf n = pairs k ++ if h then [Event.acquired] else []

/-- What is left of the operation gives back what is held. -/
def Process.Owes (J : τ → Prop) (p : Process σ ι ν ρ τ) (n : ν) (h : Bool) : Prop :=
  match p.running with
  | none => h = false ∧ J p.own
  | some q => Wp n (fun r h => h = false ∧ J r.2) q h

/-- The invariant of one semaphore. -/
structure System.Fine (J : τ → Prop) (n : ν) (s : System P σ ι ν ρ τ) : Prop where
  processes : ∀ a, ∃ h, (s.processes a).Follows n h ∧ (s.processes a).Owes J n h
  balance : s.value n + (s.holders n).card = 1

theorem pairs_succ (k : ℕ) : pairs (k + 1) = pairs k ++ [.acquired, .released] := by
  simp [pairs, List.replicate_succ']

theorem Process.Follows.holds_iff {p : Process σ ι ν ρ τ} {h : Bool} (hp : p.Follows n h) : p.Holds n ↔ h = true := by
  obtain ⟨k, hk⟩ := hp
  unfold Process.Holds
  rw [hk]
  cases h with
  | true => simp
  | false =>
    cases k with
    | zero => simp [pairs]
    | succ k => simp [pairs_succ]

theorem Process.Follows.of_eventsOf {p p' : Process σ ι ν ρ τ} {h : Bool} (hp : p.Follows n h)
    (hevents : p'.eventsOf n = p.eventsOf n) : p'.Follows n h := by
  obtain ⟨k, hk⟩ := hp
  exact ⟨k, hevents.trans hk⟩

theorem Process.Follows.acquire {p p' : Process σ ι ν ρ τ} (hp : p.Follows n false)
    (hevents : p'.eventsOf n = p.eventsOf n ++ [.acquired]) : p'.Follows n true := by
  obtain ⟨k, hk⟩ := hp
  exact ⟨k, by simp [hevents, hk]⟩

theorem Process.Follows.release {p p' : Process σ ι ν ρ τ} (hp : p.Follows n true)
    (hevents : p'.eventsOf n = p.eventsOf n ++ [.released]) : p'.Follows n false := by
  obtain ⟨k, hk⟩ := hp
  exact ⟨k + 1, by simp [hevents, hk, pairs_succ]⟩

/-- The holders after one process has moved. -/
theorem holders_put {a : P} {p : Process σ ι ν ρ τ} {h h' : Bool} (hold : (s.processes a).Follows n h)
    (hnew : p.Follows n h') (hprocesses : s'.processes = Function.update s.processes a p) :
    (s'.holders n).card + h.toNat = (s.holders n).card + h'.toNat := by
  have hcount (b : P) : (if (s'.processes b).Holds n then 1 else 0) =
      Function.update (fun b => if (s.processes b).Holds n then 1 else 0) a h'.toNat b := by
    rw [hprocesses]
    by_cases hb : b = a
    · subst hb
      rw [Function.update_self, Function.update_self]
      cases h' <;> simp [hnew.holds_iff]
    · rw [Function.update_of_ne hb, Function.update_of_ne hb]
  have hat : (if (s.processes a).Holds n then 1 else 0) = h.toNat := by
    cases h <;> simp [hold.holds_iff]
  unfold System.holders
  rw [Finset.card_filter, Finset.card_filter, Finset.sum_congr rfl fun b _ => hcount b,
    Finset.sum_update_of_mem (Finset.mem_univ a), ← Finset.add_sum_erase _ _ (Finset.mem_univ a), hat,
    Finset.sdiff_singleton_eq_erase]
  omega

/-- What one process may do to a semaphore. -/
theorem System.Fine.put (hs : s.Fine J n) {a : P} {p : Process σ ι ν ρ τ} {h : Bool} (h' : Bool)
    (hprocesses : s'.processes = Function.update s.processes a p) (hold : (s.processes a).Follows n h)
    (hnew : p.Follows n h') (howes : p.Owes J n h')
    (hvalue : s'.value n + h'.toNat = s.value n + h.toNat) : s'.Fine J n := by
  constructor
  · intro b
    rw [hprocesses]
    by_cases hb : b = a
    · subst hb
      rw [Function.update_self]
      exact ⟨h', hnew, howes⟩
    · rw [Function.update_of_ne hb]
      exact hs.processes b
  · have hcard := holders_put hold hnew hprocesses
    have hbalance := hs.balance
    omega

theorem eventsOf_append {p : Process σ ι ν ρ τ} {q : Option (Prog σ ι ν (ρ × τ))} (m : ν) (e : Event) :
    Process.eventsOf { p with running := q, events := p.events ++ [(m, e)] } n =
      p.eventsOf n ++ if m = n then [e] else [] := by
  unfold Process.eventsOf
  by_cases hm : m = n
  · simp [hm]
  · simp [hm]

theorem not_holds_nil {own : τ} {q : Option (Prog σ ι ν (ρ × τ))} : ¬ (⟨own, q, []⟩ : Process σ ι ν ρ τ).Holds n := by
  simp [Process.Holds, Process.eventsOf]

theorem holds_append_self {p : Process σ ι ν ρ τ} {q : Option (Prog σ ι ν (ρ × τ))} (e : Event) :
    Process.Holds { p with running := q, events := p.events ++ [(n, e)] } n ↔ e = .acquired := by
  unfold Process.Holds
  rw [eventsOf_append, if_pos rfl, List.getLast?_concat, Option.some_inj]

theorem holds_append_ne {p : Process σ ι ν ρ τ} {q : Option (Prog σ ι ν (ρ × τ))} {m : ν} (hm : m ≠ n) (e : Event) :
    Process.Holds { p with running := q, events := p.events ++ [(m, e)] } n ↔ p.Holds n := by
  unfold Process.Holds
  rw [eventsOf_append, if_neg hm, List.append_nil]

omit [DecidableEq P] in
/-- A semaphore that is not 0 is held by nobody. -/
theorem System.Fine.free (hs : s.Fine J n) (hpos : 0 < s.value n) {a : P} {h : Bool}
    (hfollows : (s.processes a).Follows n h) : h = false := by
  by_contra hheld
  have hmem : a ∈ s.holders n := by
    rw [System.holders, Finset.mem_filter]
    exact ⟨Finset.mem_univ _, hfollows.holds_iff.2 (by simpa using hheld)⟩
  have hcard := Finset.card_pos.2 ⟨a, hmem⟩
  have hbalance := hs.balance
  omega

/-- **One step keeps the invariant.** -/
theorem System.Fine.step (hcode : Balanced J code) (hs : s.Fine J n) (m : Move P ω ι) : (s.step code m).Fine J n := by
  obtain ⟨h, hfollows, howes⟩ := hs.processes m.process
  rcases hrun : (s.processes m.process).running with _ | q
  · -- an operation begins, and nothing is held
    rw [Process.Owes, hrun] at howes
    obtain ⟨rfl, hJ⟩ := howes
    simp only [System.step, hrun]
    exact hs.put false rfl hfollows ⟨0, rfl⟩ (hcode m.op _ hJ n) rfl
  rw [Process.Owes, hrun] at howes
  cases q with
  | done r =>
    obtain ⟨rfl, hJ⟩ := howes
    simp only [System.step, hrun]
    exact hs.put false rfl hfollows hfollows ⟨rfl, hJ⟩ rfl
  | act f k =>
    simp only [System.step, hrun]
    exact hs.put h rfl hfollows hfollows (howes m.input s.shared) rfl
  | abort =>
    simp only [System.step, hrun]
    exact hs
  | wait l k =>
    obtain ⟨hfailed, hserved⟩ := howes
    simp only [System.step, hrun]
    split_ifs with hcall hpos
    · by_cases hl : l = n
      · subst hl
        obtain rfl := hs.free hpos hfollows
        rw [if_pos rfl] at hserved
        refine hs.put true rfl hfollows (hfollows.acquire ?_) (hserved rfl) ?_
        · rw [eventsOf_append, if_pos rfl]
        · simp only [Function.update_self, Bool.toNat_true, Bool.toNat_false]
          omega
      · rw [if_neg hl] at hserved
        refine hs.put h rfl hfollows (hfollows.of_eventsOf ?_) hserved ?_
        · rw [eventsOf_append, if_neg hl, List.append_nil]
        · simp only [Function.update_of_ne (Ne.symm hl)]
    · exact hs
    · exact hs.put h rfl hfollows hfollows hfailed rfl
  | post l k =>
    obtain ⟨hfailed, hserved⟩ := howes
    simp only [System.step, hrun]
    split_ifs with hcall
    · by_cases hl : l = n
      · subst hl
        rw [if_pos rfl] at hserved
        obtain ⟨rfl, hserved⟩ := hserved
        refine hs.put false rfl hfollows (hfollows.release ?_) hserved ?_
        · rw [eventsOf_append, if_pos rfl]
        · simp only [Function.update_self, Bool.toNat_true, Bool.toNat_false]
      · rw [if_neg hl] at hserved
        refine hs.put h rfl hfollows (hfollows.of_eventsOf ?_) hserved ?_
        · rw [eventsOf_append, if_neg hl, List.append_nil]
        · simp only [Function.update_of_ne (Ne.symm hl)]
    · exact hs.put h rfl hfollows hfollows hfailed rfl

omit [DecidableEq P] in
theorem System.Fine.of_init {shared : σ} {own : P → τ} (hown : ∀ a, J (own a)) :
    (System.init shared own : System P σ ι ν ρ τ).Fine J n where
  processes a := ⟨false, ⟨0, rfl⟩, rfl, hown a⟩
  balance := by
    have hnone : (System.init shared own : System P σ ι ν ρ τ).holders n = ∅ := by
      rw [System.holders, Finset.filter_eq_empty_iff]
      intro a _ hholds
      exact absurd hholds (by simp [Process.Holds, Process.eventsOf, System.init])
    rw [hnone]
    rfl

/-- An operation has returned or thrown with `r`, and is about to leave its process. -/
def Process.Ends (p : Process σ ι ν ρ τ) (r : ρ × τ) : Prop := p.running = some (.done r)

/-- What holds of the semaphore `n` when each operation gives back what it acquires: it has at most one holder, its value
and its holders add up to 1, and an operation that ends has acquired and released it in turns, as often one as the other. -/
structure System.Sound (J : τ → Prop) (n : ν) (s : System P σ ι ν ρ τ) : Prop where
  exclusive : ∀ a b, (s.processes a).Holds n → (s.processes b).Holds n → a = b
  balance : s.value n + (s.holders n).card = 1
  released : ∀ a r, (s.processes a).Ends r → J r.2 ∧ ∃ k, (s.processes a).eventsOf n = pairs k

omit [DecidableEq P] in
theorem System.Fine.sound (hs : s.Fine J n) : s.Sound J n where
  exclusive a b ha hb := by
    have hbalance := hs.balance
    have hcard : (s.holders n).card ≤ 1 := by omega
    refine Finset.card_le_one.1 hcard a ?_ b ?_
    · rw [System.holders, Finset.mem_filter]
      exact ⟨Finset.mem_univ a, ha⟩
    · rw [System.holders, Finset.mem_filter]
      exact ⟨Finset.mem_univ b, hb⟩
  balance := hs.balance
  released a r hends := by
    obtain ⟨h, ⟨k, hk⟩, howes⟩ := hs.processes a
    rw [Process.Owes, hends] at howes
    obtain ⟨rfl, hJ⟩ := howes
    exact ⟨hJ, k, by simpa using hk⟩

/-- **Every interleaving.** -/
theorem sound_run (hcode : Balanced J code) (shared : σ) {own : P → τ} (hown : ∀ a, J (own a))
    (moves : List (Move P ω ι)) (n : ν) : (run (System.step code) (.init shared own) moves).Sound J n := by
  have hfine : (run (System.step code) (.init shared own) moves).Fine J n := by
    apply inv_run_all (fun s : System P σ ι ν ρ τ => s.Fine J n)
    · exact fun s m hs => hs.step hcode m
    · exact .of_init hown
  exact hfine.sound

end Run

end Semaphore
