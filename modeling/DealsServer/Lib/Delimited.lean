import Mathlib.InformationTheory.Coding.UniquelyDecodable

/-!
# Words that say where they end

A set of words is `Delimited` if what comes behind a word does not tell which word it is: no word of the set begins
another one.

* `delimited_length`, `delimited_closed`: words of one length, and words that end with the first `t` in them.
* `Delimited.append`: one word after another.
* `Delimited.uniquelyDecodable`, `Delimited.flatMap_inj`: a text made of such words is made of them in one way only.
-/

namespace Words

open InformationTheory

variable {β : Type*} {S T : Set (List β)}

/-- No word begins another one. -/
def Delimited (S : Set (List β)) : Prop := ∀ u ∈ S, ∀ v ∈ S, ∀ x y, u ++ x = v ++ y → u = v

/-- Words of one length. -/
theorem delimited_length (n : ℕ) : Delimited {u : List β | u.length = n} := by
  intro u hu v hv x y heq
  exact (List.append_inj heq (hu.trans hv.symm)).1

/-- Words that end with the first `t` in them. -/
theorem delimited_closed (t : β) : Delimited {u : List β | ∃ w, t ∉ w ∧ u = w ++ [t]} := by
  rintro u ⟨w, hw, rfl⟩ v ⟨w', hw', rfl⟩ x y heq
  rw [List.append_assoc, List.append_assoc] at heq
  congr 1
  -- the shorter word is followed by `t`, which is not in the longer one
  rcases List.append_eq_append_iff.1 heq with ⟨z, rfl, hz⟩ | ⟨z, rfl, hz⟩
  · cases z with
    | nil => simp
    | cons b z =>
      have hb : t = b := (List.cons.inj hz).1
      exact absurd (by simp [hb]) hw'
  · cases z with
    | nil => simp
    | cons b z =>
      have hb : t = b := (List.cons.inj hz).1
      exact absurd (by simp [hb]) hw

/-- The cut between two words. -/
theorem Delimited.cut (hS : Delimited S) {u v x y : List β} (hu : u ∈ S) (hv : v ∈ S) (heq : u ++ x = v ++ y) :
    u = v ∧ x = y := by
  obtain rfl := hS u hu v hv x y heq
  exact ⟨rfl, List.append_cancel_left heq⟩

/-- What is before the first `t`, and what is behind it. -/
theorem cut_closed {t : β} {u v x y : List β} (hu : t ∉ u) (hv : t ∉ v) (heq : u ++ t :: x = v ++ t :: y) :
    u = v ∧ x = y := by
  have hsplit : u ++ [t] ++ x = v ++ [t] ++ y := by simpa using heq
  obtain ⟨hword, hrest⟩ := (delimited_closed t).cut ⟨u, hu, rfl⟩ ⟨v, hv, rfl⟩ hsplit
  exact ⟨List.append_cancel_right hword, hrest⟩

/-- One word after another. -/
theorem Delimited.append (hS : Delimited S) (hT : Delimited T) :
    Delimited {w | ∃ u ∈ S, ∃ v ∈ T, w = u ++ v} := by
  rintro w ⟨u, hu, v, hv, rfl⟩ w' ⟨u', hu', v', hv', rfl⟩ x y heq
  rw [List.append_assoc, List.append_assoc] at heq
  obtain ⟨rfl, hrest⟩ := hS.cut hu hu' heq
  rw [hT v hv v' hv' x y hrest]

/-- **A text is made of such words in one way only.** -/
theorem Delimited.uniquelyDecodable (h : Delimited S) (hnil : [] ∉ S) : UniquelyDecodable S := by
  intro l l' hl hl' heq
  induction l generalizing l' with
  | nil =>
    cases l' with
    | nil => rfl
    | cons v l' =>
      have hempty : v = [] := (List.append_eq_nil_iff.1 (List.flatten_cons ▸ heq.symm)).1
      exact absurd (hempty ▸ hl' v List.mem_cons_self) hnil
  | cons u l ih =>
    cases l' with
    | nil =>
      have hempty : u = [] := (List.append_eq_nil_iff.1 (List.flatten_cons ▸ heq)).1
      exact absurd (hempty ▸ hl u List.mem_cons_self) hnil
    | cons v l' =>
      rw [List.flatten_cons, List.flatten_cons] at heq
      obtain ⟨rfl, hrest⟩ := h.cut (hl u List.mem_cons_self) (hl' v List.mem_cons_self) heq
      rw [ih l' (fun w hw => hl w (List.mem_cons_of_mem _ hw)) (fun w hw => hl' w (List.mem_cons_of_mem _ hw)) hrest]

/-- Texts made of the words of things that have different words. -/
theorem Delimited.flatMap_inj {α : Type*} {word : α → List β} {P : α → Prop} (h : Delimited S) (hnil : [] ∉ S)
    (hword : ∀ a, P a → word a ∈ S) (hinj : ∀ a b, P a → P b → word a = word b → a = b) {l l' : List α}
    (hl : ∀ a ∈ l, P a) (hl' : ∀ a ∈ l', P a) (heq : l.flatMap word = l'.flatMap word) : l = l' := by
  have hwords : l.map word = l'.map word := by
    refine h.uniquelyDecodable hnil _ _ (fun w hw => ?_) (fun w hw => ?_) (by simpa [List.flatMap_def] using heq)
    · obtain ⟨a, ha, rfl⟩ := List.mem_map.1 hw
      exact hword a (hl a ha)
    · obtain ⟨a, ha, rfl⟩ := List.mem_map.1 hw
      exact hword a (hl' a ha)
  clear heq
  induction l generalizing l' with
  | nil => exact (List.map_eq_nil_iff.1 hwords.symm).symm
  | cons a l ih =>
    cases l' with
    | nil => cases hwords
    | cons b l' =>
      obtain ⟨hhead, htail⟩ := List.cons.inj hwords
      rw [hinj a b (hl a List.mem_cons_self) (hl' b List.mem_cons_self) hhead,
        ih (fun c hc => hl c (List.mem_cons_of_mem _ hc)) (fun c hc => hl' c (List.mem_cons_of_mem _ hc)) htail]

end Words
