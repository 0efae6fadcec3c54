import DealsServer.Spec.TopResult
import Mathlib.Tactic.Ring
import Mathlib.Tactic.NormNum

/-!
# Response framing

`parse_topBody`: the decoder gets back exactly the blocks the server framed, and the first number of
`size_info` is the length of the whole `size_info` block.

The first field counts its own digits. `length_decimal_value` shows that one correction is enough:
adding `n + 1` to an `n`-digit number gives at most `n + 1` digits, also after the correction.
-/

namespace DealsServer

open Decimal

theorem str_semicolon : str ";" = [0x3b] := by decide

theorem semicolon_not_mem_decimal (n : ℕ) : (0x3b : UInt8) ∉ decimal n := by
  intro h
  exact absurd (isDigit_decimal h) (by decide)

/-! ## The length of `size_info` -/

/-- **One correction suffices**: the first field has as many digits as were counted for it. -/
theorem length_decimal_value (sizes : Bytes) :
    (decimal (sizeInfoValue sizes)).length = sizesStrlen sizes := by
  set N := sizes.length with hN
  set n := (decimal N).length with hn
  have hn1 : 1 ≤ n := length_decimal_pos N
  unfold sizeInfoValue sizesStrlen
  simp only [← hN, ← hn]
  by_cases h : (decimal (N + n + 1)).length = n
  · simp [h]
  · rw [if_pos h]
    -- the sum has a digit more than `N`, so it is at least `10 ^ n`
    have hge : 10 ^ n ≤ N + n + 1 := by
      by_contra hlt
      have hle := (length_decimal_le_iff (N + n + 1) hn1).2 (by omega)
      have hmono : n ≤ (decimal (N + n + 1)).length := length_decimal_mono (by omega)
      exact h (le_antisymm hle hmono)
    have hNlt : N < 10 ^ n := lt_pow_length_decimal N
    have hnlt : n < 10 ^ n := Nat.lt_pow_self (by omega)
    have hupper : (decimal (N + (n + 1) + 1)).length ≤ n + 1 := by
      rw [length_decimal_le_iff _ (by omega), pow_succ]
      omega
    have hlower : ¬ (decimal (N + (n + 1) + 1)).length ≤ n := by
      rw [length_decimal_le_iff _ hn1]
      omega
    omega

/-- The first field of `size_info` is the length of the block. -/
theorem length_sizeInfo (result : List Bytes) :
    (sizeInfo result).length = sizeInfoValue (sizesText result) := by
  simp only [sizeInfo, str_semicolon, List.length_append, List.length_singleton, length_decimal_value]
  simp only [sizeInfoValue]
  omega

/-! ## The decoder's pieces -/

theorem not_isSpace_of_isDigit {b : UInt8} (h : isDigit b = true) : isSpace b = false := by
  simp only [isDigit, isSpace, Bool.and_eq_true, decide_eq_true_eq, UInt8.le_iff_toNat_le,
    Bool.or_eq_false_iff, decide_eq_false_iff_not, ← UInt8.toNat_inj, Bool.and_eq_false_iff] at h ⊢
  simp at h ⊢
  omega

theorem dropWhile_isSpace_digits {s : Bytes} (h : ∀ b ∈ s, isDigit b = true) :
    s.dropWhile isSpace = s := by
  cases s with
  | nil => rfl
  | cons b s =>
    rw [List.dropWhile_cons_of_neg]
    simp [not_isSpace_of_isDigit (h b List.mem_cons_self)]

/-- `Number` reads a printed number back. -/
theorem number_decimal (n : ℕ) : number (decimal n) = some n := by
  have hd : ∀ b ∈ decimal n, isDigit b = true := fun b hb => isDigit_decimal hb
  have hr : ∀ b ∈ (decimal n).reverse, isDigit b = true := fun b hb => hd b (List.mem_reverse.1 hb)
  unfold number
  rw [dropWhile_isSpace_digits hd, dropWhile_isSpace_digits hr, List.reverse_reverse]
  simp [List.all_eq_true.2 hd]

/-- The scan stops at the first `;`. -/
theorem findSemicolon_append (a b : Bytes) (ha : (0x3b : UInt8) ∉ a) :
    ∀ n pos, pos ≤ a.length → a.length < pos + n →
      findSemicolon (a ++ 0x3b :: b) n pos = some a.length := by
  intro n
  induction n with
  | zero => intro pos h1 h2; omega
  | succ n ih =>
    intro pos h1 h2
    unfold findSemicolon
    rcases Nat.eq_or_lt_of_le h1 with h | h
    · subst h
      simp
    · have hget : (a ++ 0x3b :: b)[pos]? = some a[pos] := by
        rw [List.getElem?_append_left h, List.getElem?_eq_getElem h]
      have hne : a[pos] ≠ 0x3b := fun he => ha (he ▸ List.getElem_mem h)
      rw [hget, if_neg (by simpa using hne)]
      exact ih (pos + 1) h (by omega)

theorem slice_middle (a b c : Bytes) :
    slice (a ++ (b ++ c)) (a.length : ℤ) ((a.length + b.length : ℕ) : ℤ) = b := by
  have h1 : sliceIndex (a ++ (b ++ c)).length (a.length : ℤ) = a.length := by
    simp only [sliceIndex, List.length_append, if_neg (by omega : ¬ (a.length : ℤ) < 0), Int.toNat_natCast]
    omega
  have h2 : sliceIndex (a ++ (b ++ c)).length ((a.length + b.length : ℕ) : ℤ) = a.length + b.length := by
    simp only [sliceIndex, List.length_append, Int.toNat_natCast,
      if_neg (by omega : ¬ ((a.length + b.length : ℕ) : ℤ) < 0)]
    omega
  unfold slice
  rw [h1, h2, ← List.append_assoc, ← List.length_append, List.take_left, List.drop_left]

theorem slice_prefix (a b : Bytes) : slice (a ++ b) 0 (a.length : ℤ) = a := by
  simpa using slice_middle [] a b

/-- Fields joined by `;` are split into the fields. -/
theorem splitOn_fields (f : Bytes) (fs : List Bytes) (hf : (0x3b : UInt8) ∉ f)
    (hfs : ∀ g ∈ fs, (0x3b : UInt8) ∉ g) :
    (f ++ fs.flatMap (str ";" ++ ·)).splitOn 0x3b = f :: fs := by
  induction fs generalizing f with
  | nil => simpa using List.splitOn_eq_singleton hf
  | cons g gs ih =>
    have hg := hfs g List.mem_cons_self
    rw [List.flatMap_cons, str_semicolon, List.append_assoc, List.singleton_append,
      List.splitOn_append_cons_self, List.splitOn_eq_singleton hf, ← str_semicolon,
      ih g hg fun x hx => hfs x (List.mem_cons_of_mem _ hx)]
    rfl

/-- Moving the `;` from behind each field to its front. -/
theorem semicolons_front (fs : List Bytes) :
    str ";" ++ fs.flatMap (· ++ str ";") = fs.flatMap (str ";" ++ ·) ++ str ";" := by
  induction fs with
  | nil => simp
  | cons f fs ih => simp only [List.flatMap_cons, List.append_assoc, ih]

/-- The size fields as the decoder sees them, without the last `;`. -/
theorem sizeInfo_eq (result : List Bytes) :
    sizeInfo result = decimal (sizeInfoValue (sizesText result)) ++
      (result.map fun data => decimal data.length).flatMap (str ";" ++ ·) ++ str ";" := by
  have h : sizesText result = (result.map fun data => decimal data.length).flatMap (· ++ str ";") := by
    simp [sizesText, List.flatMap_map]
  simp only [sizeInfo, List.append_assoc]
  rw [← semicolons_front, ← h]

/-- The block loop cuts off exactly the blocks, from the end of what precedes them. -/
theorem cutBlocks_flatten (pre : Bytes) (result : List Bytes) :
    cutBlocks (pre ++ result.flatten) (result.map fun data => decimal data.length) pre.length =
      .ok result := by
  induction result generalizing pre with
  | nil => rfl
  | cons data rest ih =>
    have hrest := ih (pre ++ data)
    simp only [List.append_assoc, List.length_append] at hrest
    simp only [List.map_cons, List.flatten_cons, cutBlocks, number_decimal, hrest, slice_middle]
    rfl

/-! ## The round trip -/

/-- **The framing round trip.** For every list of data blocks whose framed body is a `std::string` (its
length is a `size_t`), the decoder returns exactly the blocks; and `size_info` starts with its own
length. -/
theorem parse_topBody (result : List Bytes) (hlen : (topBody result).length < 2 ^ 64) :
    parseServerResponse (topBody result) = .ok result ∧
      ∃ fields, sizeInfo result = decimal (sizeInfo result).length ++ str ";" ++ fields := by
  refine ⟨?_, sizesText result, by rw [length_sizeInfo]; rfl⟩
  set v := sizeInfoValue (sizesText result) with hv
  set fields := result.map fun data => decimal data.length with hfields
  have hinfo : sizeInfo result = decimal v ++ fields.flatMap (str ";" ++ ·) ++ str ";" := sizeInfo_eq result
  have hvlen : (sizeInfo result).length = v := length_sizeInfo result
  -- at most 20 digits, so the first `;` is within the 100 bytes scanned
  have hdigits : (decimal v).length ≤ 20 := by
    rw [length_decimal_le_iff _ (by omega)]
    have : v ≤ (topBody result).length := by
      rw [← hvlen, topBody, List.length_append]
      omega
    omega
  have hfirst : topBody result = decimal v ++ 0x3b :: (sizesText result ++ result.flatten) := by
    simp [topBody, sizeInfo, str_semicolon, ← hv]
  have hlength : infoLength (topBody result) = some v := by
    unfold infoLength
    rw [hfirst, findSemicolon_append _ _ (semicolon_not_mem_decimal v) 100 0 (by omega) (by omega),
      Option.bind_some, slice_prefix, number_decimal]
  have hsizes : slice (topBody result) 0 (v - 1 : ℤ) = decimal v ++ fields.flatMap (str ";" ++ ·) := by
    have hl : (v - 1 : ℤ) = (decimal v ++ fields.flatMap (str ";" ++ ·)).length := by
      have h := congrArg List.length hinfo
      have hone : (str ";").length = 1 := rfl
      rw [hvlen, List.length_append, hone] at h
      omega
    rw [hl, topBody, hinfo, List.append_assoc _ (str ";")]
    exact slice_prefix _ _
  have hsplit : (slice (topBody result) 0 (v - 1 : ℤ)).splitOn 0x3b = decimal v :: fields := by
    rw [hsizes]
    refine splitOn_fields _ _ (semicolon_not_mem_decimal v) fun g hg => ?_
    obtain ⟨data, -, rfl⟩ := List.mem_map.1 hg
    exact semicolon_not_mem_decimal _
  unfold parseServerResponse
  simp only [hlength, hsplit, number_decimal]
  rw [← hvlen]
  exact cutBlocks_flatten (sizeInfo result) result

/-- The round trip on blocks that look like size fields. -/
theorem parse_topBody_example :
    parseServerResponse (topBody [str "abc", [], str "1;2;"]) = .ok [str "abc", [], str "1;2;"] ∧
      ∃ fields, sizeInfo [str "abc", [], str "1;2;"] =
        decimal (sizeInfo [str "abc", [], str "1;2;"]).length ++ str ";" ++ fields :=
  parse_topBody _ (by decide)

end DealsServer
