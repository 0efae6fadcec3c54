import DealsServer.Spec.Strings

/-!
# Searching and splitting

* `splitString_join`: `split_string` ends, no token has the delimiter in it, and the tokens joined by the
  delimiter are the text again, less its last delimiter when the final cut leaves nothing; a list of tokens
  joined by one character is split into these tokens, when the last of them is not empty.

`find` gives the first place where a pattern stands (`find_eq_some_iff`). A turn of `split_string` cuts there
(`splitLoop_cut`), and `split_induction` is the induction over the cuts.
-/

namespace DealsServer

/-! ## The first occurrence -/

/-- **What `find` returns**: a place where the pattern stands, and it stands at none before. -/
theorem find_eq_some_iff {pat w : Bytes} {pos : ℕ} :
    find pat w = some pos ↔ pat <+: w.drop pos ∧ ∀ i < pos, ¬ pat <+: w.drop i := by
  induction w generalizing pos with
  | nil =>
    unfold find
    by_cases hpat : pat = []
    · rw [if_pos hpat, hpat, Option.some.injEq]
      constructor
      · rintro rfl
        simp
      · rintro ⟨-, hfirst⟩
        by_contra hne
        exact hfirst 0 (by omega) List.nil_prefix
    · rw [if_neg hpat]
      simp [hpat]
  | cons b w ih =>
    unfold find
    by_cases hpre : pat <+: b :: w
    · rw [if_pos (List.isPrefixOf_iff_prefix.2 hpre), Option.some.injEq]
      constructor
      · rintro rfl
        simpa using hpre
      · rintro ⟨-, hfirst⟩
        by_contra hne
        exact hfirst 0 (by omega) hpre
    · rw [if_neg (mt List.isPrefixOf_iff_prefix.1 hpre), Option.map_eq_some_iff]
      constructor
      · rintro ⟨pos, hpos, rfl⟩
        obtain ⟨hstands, hfirst⟩ := ih.1 hpos
        refine ⟨hstands, fun i hi => ?_⟩
        cases i with
        | zero => exact hpre
        | succ i => exact hfirst i (by omega)
      · rintro ⟨hstands, hfirst⟩
        cases pos with
        | zero => exact absurd hstands hpre
        | succ pos =>
          exact ⟨pos, ih.2 ⟨hstands, fun i hi => hfirst (i + 1) (by omega)⟩, rfl⟩

/-- What `find` does not find does not stand anywhere. -/
theorem find_eq_none_iff {pat w : Bytes} : find pat w = none ↔ ¬ pat <:+: w := by
  rw [List.infix_iff_prefix_suffix]
  constructor
  · rintro hnone ⟨t, hpre, hsuf⟩
    -- among the places where it stands there is a first one
    obtain ⟨n, rfl⟩ : ∃ n, t = w.drop n := ⟨_, List.suffix_iff_eq_drop.1 hsuf⟩
    have hex : ∃ i, pat <+: w.drop i := ⟨n, hpre⟩
    classical
    have hfind : find pat w = some (Nat.find hex) := find_eq_some_iff.2 ⟨Nat.find_spec hex, fun i hi => Nat.find_min hex hi⟩
    rw [hnone] at hfind
    cases hfind
  · intro hnot
    by_contra hne
    obtain ⟨pos, hpos⟩ := Option.ne_none_iff_exists'.1 hne
    exact hnot ⟨_, (find_eq_some_iff.1 hpos).1, List.drop_suffix _ _⟩

/-- What is found lies in the text. -/
theorem find_le {pat : Bytes} {pos : ℕ} (w : Bytes) (h : find pat w = some pos) : pos + pat.length ≤ w.length := by
  obtain ⟨hstands, hfirst⟩ := find_eq_some_iff.1 h
  have hlen := hstands.length_le
  rw [List.length_drop] at hlen
  by_contra hlt
  -- behind the end only the empty pattern stands, and it stands at the beginning too
  have hempty : pat = [] := List.length_eq_zero_iff.1 (by omega)
  subst hempty
  have hzero : pos = 0 := by
    by_contra hne
    exact hfirst 0 (by omega) List.nil_prefix
  subst hzero
  simp at hlt

theorem prefix_drop_append_iff {pat w : Bytes} {i : ℕ} (c : Bytes) (h : i + pat.length ≤ w.length) :
    pat <+: (w ++ c).drop i ↔ pat <+: w.drop i := by
  rw [List.drop_append_of_le_length (by omega)]
  exact List.isPrefix_append_of_length (by rw [List.length_drop]; omega)

/-- The first place of a pattern stays the first when bytes follow. -/
theorem find_append {pat : Bytes} {pos : ℕ} (w c : Bytes) (h : find pat w = some pos) :
    find pat (w ++ c) = some pos := by
  have hle := find_le w h
  obtain ⟨hstands, hfirst⟩ := find_eq_some_iff.1 h
  refine find_eq_some_iff.2 ⟨(prefix_drop_append_iff c hle).2 hstands, fun i hi => ?_⟩
  rw [prefix_drop_append_iff c (by omega)]
  exact hfirst i hi

/-- What is found is found in each beginning of the text that covers it. -/
theorem find_take {pat : Bytes} {pos n : ℕ} (w : Bytes) (h : find pat w = some pos) (hn : pos + pat.length ≤ n) :
    find pat (w.take n) = some pos := by
  have hle := find_le w h
  obtain ⟨hstands, hfirst⟩ := find_eq_some_iff.1 h
  have hsame {i : ℕ} (hi : i ≤ pos) : pat <+: w.drop i ↔ pat <+: (w.take n).drop i := by
    have hcovered : i + pat.length ≤ (w.take n).length := by
      rw [List.length_take]
      omega
    have hcut := prefix_drop_append_iff (w.drop n) hcovered
    rwa [List.take_append_drop] at hcut
  exact find_eq_some_iff.2 ⟨(hsame le_rfl).1 hstands, fun i hi => mt (hsame hi.le).2 (hfirst i hi)⟩

/-- Where a pattern is found, its beginning is found no later. -/
theorem find_of_prefix {pat pat' : Bytes} {pos : ℕ} (hpre : pat' <+: pat) (w : Bytes) (h : find pat w = some pos) :
    ∃ pos' ≤ pos, find pat' w = some pos' := by
  have hstands : pat' <+: w.drop pos := hpre.trans (find_eq_some_iff.1 h).1
  rcases hfind : find pat' w with _ | pos'
  · exact absurd (List.infix_iff_prefix_suffix.2 ⟨_, hstands, List.drop_suffix _ _⟩) (find_eq_none_iff.1 hfind)
  · refine ⟨pos', ?_, rfl⟩
    by_contra hlt
    exact (find_eq_some_iff.1 hfind).2 pos (by omega) hstands

/-- A pattern is found behind bytes without its first one. -/
theorem find_behind {b : UInt8} {w : Bytes} (pat rest : Bytes) (hw : b ∉ w) :
    find (b :: pat) (w ++ (b :: pat) ++ rest) = some w.length := by
  rw [List.append_assoc]
  refine find_eq_some_iff.2 ⟨by simp, ?_⟩
  rintro i hi ⟨t, ht⟩
  rw [List.drop_append_of_le_length hi.le] at ht
  -- the byte at that place is one of `w`
  have hdrop : w.drop i = w[i] :: w.drop (i + 1) := List.drop_eq_getElem_cons hi
  rw [hdrop, List.cons_append, List.cons_append] at ht
  exact hw ((List.cons.inj ht).1 ▸ List.getElem_mem hi)

/-! ## The cuts -/

section Cuts

variable {delimiter : Bytes}

theorem splitLoop_nil (n : ℕ) : splitLoop delimiter (n + 1) [] = some [] := by
  rw [splitLoop, if_pos rfl]

theorem splitLoop_whole {text : Bytes} (ht : text ≠ []) (h : find delimiter text = none) (n : ℕ) :
    splitLoop delimiter (n + 1) text = some [text] := by
  rw [splitLoop, if_neg ht, h]

/-- A turn of the loop that finds the delimiter. -/
theorem splitLoop_cut {text : Bytes} {pos : ℕ} (hd : delimiter ≠ []) (h : find delimiter text = some pos) (n : ℕ) :
    splitLoop delimiter (n + 1) text =
      (splitLoop delimiter n (text.drop (pos + delimiter.length))).map (text.take pos :: ·) := by
  have hle := find_le text h
  have hpos := List.length_pos_iff.2 hd
  have ht : text ≠ [] := List.length_pos_iff.1 (by omega)
  rw [splitLoop, if_neg ht, h]

/-- Around a cut the text is the token, the delimiter and the rest. -/
theorem cut_eq {text : Bytes} {pos : ℕ} (h : find delimiter text = some pos) :
    text.take pos ++ delimiter ++ text.drop (pos + delimiter.length) = text := by
  obtain ⟨rest, hrest⟩ := (find_eq_some_iff.1 h).1
  have hdrop : text.drop (pos + delimiter.length) = rest := by
    rw [← List.drop_drop, ← hrest, List.drop_left]
  rw [hdrop, List.append_assoc, hrest, List.take_append_drop]

/-- The delimiter does not stand in what is cut off before it. -/
theorem cut_free {text : Bytes} {pos : ℕ} (hd : delimiter ≠ []) (h : find delimiter text = some pos) :
    ¬ delimiter <:+: text.take pos := by
  intro hpart
  obtain ⟨t, hpre, hsuf⟩ := List.infix_iff_prefix_suffix.1 hpart
  obtain ⟨i, rfl⟩ : ∃ i, t = (text.take pos).drop i := ⟨_, List.suffix_iff_eq_drop.1 hsuf⟩
  have hpos := List.length_pos_iff.2 hd
  have hlen := hpre.length_le
  rw [List.length_drop, List.length_take] at hlen
  refine (find_eq_some_iff.1 h).2 i (by omega) (hpre.trans ?_)
  rw [List.drop_take]
  exact List.take_prefix _ _

/-- **Induction over the cuts**: a text is empty, has no delimiter, or is cut at the first one. -/
theorem split_induction (hd : delimiter ≠ []) {motive : Bytes → Prop} (nil : motive [])
    (whole : ∀ text, text ≠ [] → find delimiter text = none → motive text)
    (cut : ∀ text pos, find delimiter text = some pos → motive (text.drop (pos + delimiter.length)) → motive text)
    (text : Bytes) : motive text := by
  induction hn : text.length using Nat.strong_induction_on generalizing text with
  | _ n ih =>
    by_cases ht : text = []
    · rw [ht]
      exact nil
    · rcases h : find delimiter text with _ | pos
      · exact whole text ht h
      · have hpos := List.length_pos_iff.2 hd
        have hlen := List.length_pos_iff.2 ht
        exact cut text pos h (ih _ (by rw [List.length_drop]; omega) _ rfl)

/-- The text is cut, and the final cut leaves nothing. -/
inductive LeavesNothing (delimiter : Bytes) : Bytes → Prop
  | final {text : Bytes} {pos : ℕ} (hfind : find delimiter text = some pos)
      (hrest : text.drop (pos + delimiter.length) = []) : LeavesNothing delimiter text
  | cut {text : Bytes} {pos : ℕ} (hfind : find delimiter text = some pos)
      (hrest : LeavesNothing delimiter (text.drop (pos + delimiter.length))) : LeavesNothing delimiter text

/-- The loop ends with these tokens, which are pieces of the text between delimiters. -/
structure Splits (delimiter text : Bytes) (tokens : List Bytes) : Prop where
  ends : ∀ n, text.length < n → splitLoop delimiter n text = some tokens
  empty : tokens = [] ↔ text = []
  free : ∀ token ∈ tokens, ¬ delimiter <:+: token
  joins : ¬ LeavesNothing delimiter text → delimiter.intercalate tokens = text
  joinsCut : LeavesNothing delimiter text → delimiter.intercalate tokens ++ delimiter = text

theorem not_leavesNothing_nil (hd : delimiter ≠ []) : ¬ LeavesNothing delimiter [] := by
  have hnone : find delimiter [] = none := by
    rw [find, if_neg hd]
  intro h
  cases h with
  | final hfind => rw [hnone] at hfind; cases hfind
  | cut hfind => rw [hnone] at hfind; cases hfind

theorem leavesNothing_cut_iff {text : Bytes} {pos : ℕ} (hfind : find delimiter text = some pos) :
    LeavesNothing delimiter text ↔
      text.drop (pos + delimiter.length) = [] ∨ LeavesNothing delimiter (text.drop (pos + delimiter.length)) := by
  constructor
  · intro h
    cases h with
    | final h hrest => cases hfind.symm.trans h; exact .inl hrest
    | cut h hrest => cases hfind.symm.trans h; exact .inr hrest
  · rintro (hrest | hrest)
    · exact .final hfind hrest
    · exact .cut hfind hrest

/-- **`split_string` splits.** -/
theorem exists_splits (hd : delimiter ≠ []) (text : Bytes) : ∃ tokens, Splits delimiter text tokens := by
  induction text using split_induction hd with
  | nil =>
    refine ⟨[], fun n hn => ?_, by simp, by simp, fun _ => List.intercalate_nil, fun h => ?_⟩
    · obtain ⟨n, rfl⟩ := Nat.exists_eq_add_of_lt hn
      exact splitLoop_nil _
    · exact absurd h (not_leavesNothing_nil hd)
  | whole text ht h =>
    refine ⟨[text], fun n hn => ?_, by simp [ht], ?_, fun _ => List.intercalate_singleton, fun hcut => ?_⟩
    · obtain ⟨n, rfl⟩ := Nat.exists_eq_add_of_lt hn
      exact splitLoop_whole ht h _
    · intro token htoken
      rw [List.mem_singleton.1 htoken]
      exact find_eq_none_iff.1 h
    · cases hcut with
      | final hfind => rw [h] at hfind; cases hfind
      | cut hfind => rw [h] at hfind; cases hfind
  | cut text pos h ih =>
    obtain ⟨tokens, hrest⟩ := ih
    have hle := find_le text h
    have hpos := List.length_pos_iff.2 hd
    have htext := cut_eq h
    set rest := text.drop (pos + delimiter.length) with hdrop
    refine ⟨text.take pos :: tokens, fun n hn => ?_, ?_, ?_, fun hnot => ?_, fun hcut => ?_⟩
    · obtain ⟨n, rfl⟩ : ∃ m, n = m + 1 := ⟨n - 1, by omega⟩
      rw [splitLoop_cut hd h, ← hdrop, hrest.ends n (by rw [hdrop, List.length_drop]; omega)]
      rfl
    · have ht : text ≠ [] := List.length_pos_iff.1 (by omega)
      simp [ht]
    · intro token htoken
      rcases List.mem_cons.1 htoken with rfl | htoken
      · exact cut_free hd h
      · exact hrest.free token htoken
    · -- something is left, so the rest has a token
      rw [leavesNothing_cut_iff h, not_or] at hnot
      have hne : tokens ≠ [] := mt hrest.empty.1 hnot.1
      rw [List.intercalate_cons_of_ne_nil hne, hrest.joins hnot.2]
      exact htext
    · by_cases hnil : rest = []
      · rw [hrest.empty.2 hnil, List.intercalate_singleton]
        rw [hnil, List.append_nil] at htext
        exact htext
      · have hne : tokens ≠ [] := mt hrest.empty.1 hnil
        have hcut' := ((leavesNothing_cut_iff h).1 hcut).resolve_left hnil
        rw [List.intercalate_cons_of_ne_nil hne, List.append_assoc, hrest.joinsCut hcut']
        exact htext

theorem Splits.splitString_eq {text : Bytes} {tokens : List Bytes} (h : Splits delimiter text tokens) :
    splitString text delimiter = tokens := by
  rw [splitString, h.ends _ (Nat.lt_succ_self _)]
  rfl

theorem splitString_ne_nil {text : Bytes} (hd : delimiter ≠ []) (ht : text ≠ []) :
    splitString text delimiter ≠ [] := by
  obtain ⟨tokens, hsplits⟩ := exists_splits hd text
  rw [hsplits.splitString_eq]
  exact mt hsplits.empty.1 ht

theorem splitString_whole {text : Bytes} (ht : text ≠ []) (h : find delimiter text = none) :
    splitString text delimiter = [text] := by
  rw [splitString, splitLoop_whole ht h]
  rfl

theorem splitString_cut {text : Bytes} {pos : ℕ} (hd : delimiter ≠ []) (h : find delimiter text = some pos) :
    splitString text delimiter = text.take pos :: splitString (text.drop (pos + delimiter.length)) delimiter := by
  obtain ⟨tokens, hrest⟩ := exists_splits hd (text.drop (pos + delimiter.length))
  have hle := find_le text h
  have hpos := List.length_pos_iff.2 hd
  rw [hrest.splitString_eq, splitString, splitLoop_cut hd h, hrest.ends _ (by rw [List.length_drop]; omega)]
  rfl

end Cuts

/-- **Splitting at one character inverts joining**, when the last token is not empty. -/
theorem splitString_intercalate {c : UInt8} (tokens : List Bytes) (hfree : ∀ token ∈ tokens, c ∉ token)
    (hlast : ∀ token ∈ tokens.getLast?, token ≠ []) : splitString ([c].intercalate tokens) [c] = tokens := by
  induction tokens with
  | nil => rfl
  | cons token tokens ih =>
    have htoken := hfree token List.mem_cons_self
    rcases tokens with _ | ⟨next, tokens⟩
    · rw [List.intercalate_singleton]
      have hnone : find [c] token = none :=
        find_eq_none_iff.2 fun hpart => htoken (hpart.subset List.mem_cons_self)
      exact splitString_whole (hlast token rfl) hnone
    · have hrest := ih (fun t ht => hfree t (List.mem_cons_of_mem _ ht)) (by simpa using hlast)
      rw [List.intercalate_cons_cons]
      have hfind := find_behind (w := token) [] ([c].intercalate (next :: tokens)) htoken
      rw [splitString_cut (by simp) hfind, List.append_assoc, List.take_left, ← List.append_assoc]
      have hdrop : (token ++ [c] ++ [c].intercalate (next :: tokens)).drop (token.length + [c].length) =
          [c].intercalate (next :: tokens) := by
        rw [← List.length_append, List.drop_left]
      rw [hdrop, hrest]

/-- **Splitting is inverse to joining.** -/
theorem splitString_join :
    (∀ delimiter text : Bytes, delimiter ≠ [] →
        Splits delimiter text (splitString text delimiter)) ∧
      ∀ (c : UInt8) (tokens : List Bytes) (hne : tokens ≠ []), (∀ token ∈ tokens, c ∉ token) →
        tokens.getLast hne ≠ [] → splitString ([c].intercalate tokens) [c] = tokens := by
  constructor
  · intro delimiter text hd
    obtain ⟨tokens, hsplits⟩ := exists_splits hd text
    rwa [hsplits.splitString_eq]
  · intro c tokens hne hfree hlast
    apply splitString_intercalate tokens hfree
    intro token htoken
    rw [List.getLast?_eq_some_getLast hne, Option.mem_some_iff] at htoken
    rwa [← htoken]

theorem splitString_join_codes :
    Splits (str ",") (str "LED,,MOW,") (splitString (str "LED,,MOW,") (str ",")) ∧
      splitString ([44].intercalate [str "LED", [], str "MOW"]) [44] = [str "LED", [], str "MOW"] :=
  ⟨splitString_join.1 (str ",") (str "LED,,MOW,") (by decide),
    splitString_join.2 44 [str "LED", [], str "MOW"] (by decide) (by decide) (by decide)⟩

end DealsServer
