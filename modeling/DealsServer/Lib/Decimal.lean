import Mathlib.Data.Nat.Digits.Lemmas

/-!
# Decimal numerals as bytes

`decimal n` prints a natural number in base ten, most significant digit first and without leading
zeros; `decimalValue` reads a string of digits back.

* `decimalValue_decimal`: reading inverts printing, so printing is injective.
* `length_decimal_le_iff`: how many digits a number has.
* `decimalValue_append`: the value of two numerals in a row.
* `padded k n`: the numeral of `n` filled up with zeros to `k` digits.
-/

namespace Decimal

/-- The byte of a digit. -/
def digitByte (d : ℕ) : UInt8 := UInt8.ofNat (48 + d)

/-- The bytes `'0'` to `'9'`. -/
def isDigit (b : UInt8) : Bool := 48 ≤ b && b ≤ 57

/-- The value of a digit's byte. -/
def digitValue (b : UInt8) : ℕ := b.toNat - 48

/-- **The decimal numeral of `n`.** -/
def decimal (n : ℕ) : List UInt8 :=
  if n = 0 then [digitByte 0] else (Nat.digits 10 n).reverse.map digitByte

/-- The number a string of digits denotes. -/
def decimalValue (s : List UInt8) : ℕ := Nat.ofDigits 10 (s.reverse.map digitValue)

theorem digitByte_toNat {d : ℕ} (hd : d < 10) : (digitByte d).toNat = 48 + d := by
  simp only [digitByte, UInt8.toNat_ofNat']
  omega

theorem isDigit_digitByte {d : ℕ} (hd : d < 10) : isDigit (digitByte d) = true := by
  have := digitByte_toNat hd
  simp only [isDigit, Bool.and_eq_true, decide_eq_true_eq, UInt8.le_iff_toNat_le, this]
  exact ⟨by simp, by simp; omega⟩

theorem digitValue_digitByte {d : ℕ} (hd : d < 10) : digitValue (digitByte d) = d := by
  simp [digitValue, digitByte_toNat hd]

theorem isDigit_decimal {n : ℕ} {b : UInt8} (hb : b ∈ decimal n) : isDigit b = true := by
  unfold decimal at hb
  split at hb
  · rw [List.mem_singleton] at hb
    subst hb
    exact isDigit_digitByte (by omega)
  · obtain ⟨d, hd, rfl⟩ := List.mem_map.1 hb
    exact isDigit_digitByte (Nat.digits_lt_base (by omega) (List.mem_reverse.1 hd))

theorem decimal_ne_nil (n : ℕ) : decimal n ≠ [] := by
  unfold decimal
  split
  · simp
  · rename_i h
    simpa [Nat.digits_eq_nil_iff_eq_zero] using h

/-- **Reading inverts printing.** -/
@[simp] theorem decimalValue_decimal (n : ℕ) : decimalValue (decimal n) = n := by
  unfold decimal
  split
  · subst_vars; rfl
  · have h : ((Nat.digits 10 n).map (digitValue ∘ digitByte)) = Nat.digits 10 n := by
      conv_rhs => rw [← List.map_id (Nat.digits 10 n)]
      exact List.map_congr_left fun d hd => digitValue_digitByte (Nat.digits_lt_base (by omega) hd)
    simp only [decimalValue, List.map_reverse, List.reverse_reverse, List.map_map, h,
      Nat.ofDigits_digits]

theorem decimal_injective : Function.Injective decimal :=
  Function.LeftInverse.injective decimalValue_decimal

/-- **How many digits.** A number has at most `k` digits (`1 ≤ k`) exactly if it is below `10 ^ k`. -/
theorem length_decimal_le_iff (n : ℕ) {k : ℕ} (hk : 1 ≤ k) : (decimal n).length ≤ k ↔ n < 10 ^ k := by
  unfold decimal
  split
  · subst_vars
    simp only [List.length_singleton, hk, true_iff]
    positivity
  · simp [Nat.digits_length_le_iff]

theorem length_decimal_pos (n : ℕ) : 1 ≤ (decimal n).length :=
  List.length_pos_iff.2 (decimal_ne_nil n)

theorem lt_pow_length_decimal (n : ℕ) : n < 10 ^ (decimal n).length :=
  (length_decimal_le_iff n (length_decimal_pos n)).1 le_rfl

/-- A digit's byte stands for less than ten. -/
theorem digitValue_lt {b : UInt8} (hb : isDigit b = true) : digitValue b < 10 := by
  simp only [isDigit, Bool.and_eq_true, decide_eq_true_eq, UInt8.le_iff_toNat_le] at hb
  have hhigh : b.toNat ≤ 57 := hb.2
  unfold digitValue
  omega

theorem decimalValue_lt {s : List UInt8} (hs : ∀ b ∈ s, isDigit b = true) : decimalValue s < 10 ^ s.length := by
  have hdigits : ∀ d ∈ s.reverse.map digitValue, d < 10 := by
    intro d hd
    obtain ⟨b, hb, rfl⟩ := List.mem_map.1 hd
    exact digitValue_lt (hs b (List.mem_reverse.1 hb))
  have hlt := Nat.ofDigits_lt_base_pow_length (by omega : 1 < 10) hdigits
  simpa [decimalValue] using hlt

/-- **Two numerals in a row.** The first counts powers of ten beyond the second. -/
theorem decimalValue_append (s t : List UInt8) :
    decimalValue (s ++ t) = decimalValue s * 10 ^ t.length + decimalValue t := by
  simp only [decimalValue, List.reverse_append, List.map_append, Nat.ofDigits_append, List.length_map,
    List.length_reverse]
  ring

theorem decimalValue_zeros (k : ℕ) : decimalValue (List.replicate k (digitByte 0)) = 0 := by
  simp only [decimalValue, List.reverse_replicate, List.map_replicate, digitValue_digitByte (by omega : 0 < 10)]
  exact Nat.ofDigits_replicate_zero

/-- The numeral of `n`, filled up with zeros to `k` digits. -/
def padded (k n : ℕ) : List UInt8 := List.replicate (k - (decimal n).length) (digitByte 0) ++ decimal n

@[simp] theorem decimalValue_padded (k n : ℕ) : decimalValue (padded k n) = n := by
  rw [padded, decimalValue_append, decimalValue_zeros, decimalValue_decimal]
  omega

theorem isDigit_padded {k n : ℕ} {b : UInt8} (hb : b ∈ padded k n) : isDigit b = true := by
  rcases List.mem_append.1 hb with hzero | hdigit
  · rw [List.eq_of_mem_replicate hzero]
    exact isDigit_digitByte (by omega)
  · exact isDigit_decimal hdigit

theorem length_padded {k n : ℕ} (hk : 1 ≤ k) (hn : n < 10 ^ k) : (padded k n).length = k := by
  have hle := (length_decimal_le_iff n hk).2 hn
  simp only [padded, List.length_append, List.length_replicate]
  omega

/-- Nothing is filled up in a numeral of `k + 1` digits. -/
theorem padded_eq_decimal_iff {k : ℕ} (n : ℕ) (hk : 1 ≤ k) : padded (k + 1) n = decimal n ↔ 10 ^ k ≤ n := by
  have hlength := length_decimal_le_iff n hk
  unfold padded
  constructor
  · intro h
    have hlen := congrArg List.length h
    simp only [List.length_append, List.length_replicate] at hlen
    by_contra hlt
    have := hlength.2 (by omega)
    omega
  · intro h
    have hlong : ¬ (decimal n).length ≤ k := fun hle => absurd (hlength.1 hle) (by omega)
    rw [(by omega : k + 1 - (decimal n).length = 0), List.replicate_zero, List.nil_append]

theorem length_decimal_mono {m n : ℕ} (h : m ≤ n) : (decimal m).length ≤ (decimal n).length :=
  (length_decimal_le_iff m (length_decimal_pos n)).2 (lt_of_le_of_lt h (lt_pow_length_decimal n))

end Decimal
