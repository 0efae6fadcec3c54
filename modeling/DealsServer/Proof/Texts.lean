import DealsServer.Proof.DayCount
import Mathlib.Data.List.TakeWhile

/-!
# Dates as texts

`Date(std::string)` checks the length and the dashes and leaves the digits to `std::stol`; `int_to_date` prints the
code of a date without filling up the year.

* `datesHandled_iff`: the texts on which the three outcomes are the right ones, and the order of the dates read.
-/

namespace DealsServer

open Calendar Decimal

variable {s : Bytes}

/-! ## `std::stol` -/

/-- There is no digit behind the blanks and the sign. -/
def NoDigit (s : Bytes) : Prop := ∀ b ∈ (stolSign (s.dropWhile isSpace)).2.head?, isDigit b = false

/-- A numeral: digits and nothing else. -/
def Numeral (s : Bytes) : Prop := s ≠ [] ∧ ∀ b ∈ s, isDigit b = true

theorem isDigit_bounds {b : UInt8} (hb : isDigit b = true) : 48 ≤ b.toNat ∧ b.toNat ≤ 57 := by
  simpa [isDigit, UInt8.le_iff_toNat_le] using hb

theorem isSpace_digit {b : UInt8} (hb : isDigit b = true) : isSpace b = false := by
  have hrange := isDigit_bounds hb
  simp only [isSpace, Bool.or_eq_false_iff, Bool.and_eq_false_iff, decide_eq_false_iff_not, UInt8.le_iff_toNat_le,
    ← UInt8.toNat_inj]
  constructor
  · show ¬ b.toNat = 32
    omega
  · right
    show ¬ b.toNat ≤ 13
    omega

theorem stolSign_digit {b : UInt8} (hb : isDigit b = true) (rest : Bytes) : stolSign (b :: rest) = (false, b :: rest) := by
  have hrange := isDigit_bounds hb
  have hminus : b ≠ 45 := by
    rintro rfl
    exact absurd hrange.1 (by decide)
  have hplus : b ≠ 43 := by
    rintro rfl
    exact absurd hrange.1 (by decide)
  unfold stolSign
  split
  · rename_i heq
    exact absurd (List.cons.inj heq).1 hminus
  · rename_i heq
    exact absurd (List.cons.inj heq).1 hplus
  · rfl

/-- **A numeral is read** as its value. -/
theorem stol_numeral (hs : Numeral s) :
    stol s = if decimalValue s < 2 ^ 63 then some (decimalValue s : ℤ) else none := by
  obtain ⟨hne, hdigits⟩ := hs
  obtain ⟨b, rest, rfl⟩ := List.exists_cons_of_ne_nil hne
  have hb := hdigits b List.mem_cons_self
  have hdrop : (b :: rest).dropWhile isSpace = b :: rest := by
    rw [List.dropWhile_cons_of_neg]
    rw [isSpace_digit hb]
    exact Bool.false_ne_true
  have htake : (b :: rest).takeWhile isDigit = b :: rest := List.takeWhile_eq_self_iff.2 hdigits
  unfold stol
  rw [hdrop, stolSign_digit hb]
  dsimp only
  rw [htake, if_neg hne, if_neg Bool.false_ne_true]
  by_cases hlt : decimalValue (b :: rest) < 2 ^ 63
  · rw [if_pos hlt, if_pos (by omega)]
  · rw [if_neg hlt, if_neg (by omega)]

theorem noDigit_iff : NoDigit s ↔ (stolSign (s.dropWhile isSpace)).2.takeWhile isDigit = [] := by
  unfold NoDigit
  rcases (stolSign (s.dropWhile isSpace)).2 with _ | ⟨b, rest⟩
  · simp
  · by_cases hb : isDigit b = true <;> simp [hb]

theorem length_stolSign_le (s : Bytes) : (stolSign s).2.length ≤ s.length := by
  unfold stolSign
  split <;> simp

/-- **A short text** is refused only for want of a digit. -/
theorem stol_eq_none_iff (hs : s.length ≤ 18) : stol s = none ↔ NoDigit s := by
  rw [noDigit_iff]
  unfold stol
  rcases hsign : stolSign (s.dropWhile isSpace) with ⟨minus, rest⟩
  dsimp only
  by_cases hnil : rest.takeWhile isDigit = []
  · simp [hnil]
  · have hlength : (rest.takeWhile isDigit).length ≤ 18 := by
      have htake := (List.takeWhile_prefix (p := isDigit) (l := rest)).length_le
      have hrest := length_stolSign_le (s.dropWhile isSpace)
      have hdrop := (List.dropWhile_suffix (p := isSpace) (l := s)).length_le
      rw [hsign] at hrest
      dsimp only at hrest
      omega
    have hvalue : decimalValue (rest.takeWhile isDigit) < 10 ^ 18 :=
      (decimalValue_lt fun b hb => List.mem_takeWhile_imp hb).trans_le (Nat.pow_le_pow_right (by omega) hlength)
    have hfits : -2 ^ 63 ≤ (if minus = true then -(decimalValue (rest.takeWhile isDigit) : ℤ)
          else decimalValue (rest.takeWhile isDigit)) ∧
        (if minus = true then -(decimalValue (rest.takeWhile isDigit) : ℤ)
          else decimalValue (rest.takeWhile isDigit)) < 2 ^ 63 := by
      split_ifs <;> omega
    rw [if_neg hnil, if_pos hfits]
    simp [hnil]

/-! ## Dates -/

/-- The text `YYYY-MM-DD`. -/
def isoDate (y m d : ℕ) : Bytes := padded 4 y ++ str "-" ++ padded 2 m ++ str "-" ++ padded 2 d

/-- The text of a date. -/
def DateParts.iso (p : DateParts) : Bytes := isoDate p.year.toNat p.month.toNat p.day.toNat

/-- The three outcomes of `Date(std::string)`: no date for the empty text, a date of the calendar for its text, which
it is printed as, or an error. -/
def DateHandled (s : Bytes) : Prop :=
  (s = [] ∧ Date.parse s = .ok none) ∨
    (∃ p : DateParts, Date.parse s = .ok (some p) ∧ p.Valid ∧ s = p.iso ∧ intToDate p.code = .ok s) ∨
    ∃ err, Date.parse s = .error (.error err)

/-- The text has a wrong length, lacks a dash, or has no digits to read. -/
def DateRefused (s : Bytes) : Prop :=
  s ≠ [] ∧ (s.length ≠ 10 ∨ s[4]? ≠ some 45 ∨ s[7]? ≠ some 45 ∨ NoDigit ((s.eraseIdx 4).eraseIdx 6))

/-- The text of a date from the year 1000 on. -/
def IsoText (s : Bytes) : Prop := ∃ y m d, IsDate y m d ∧ 1000 ≤ y ∧ y ≤ 9999 ∧ s = isoDate y m d

theorem dateToInt_error_iff (hs : s ≠ []) : (∃ err, dateToInt s = .error (.error err)) ↔ DateRefused s := by
  unfold dateToInt DateRefused
  dsimp only
  by_cases hlength : s.length = 10
  · rw [if_neg (not_not.2 hlength)]
    by_cases hdash : s[4]? ≠ some 45 ∨ s[7]? ≠ some 45
    · rw [if_pos hdash]
      exact iff_of_true ⟨_, rfl⟩ ⟨hs, .inr (hdash.imp_right .inl)⟩
    · rw [if_neg hdash]
      have hshort : ((s.eraseIdx 4).eraseIdx 6).length ≤ 18 := by
        have h4 := List.length_eraseIdx_le s 4
        have h6 := List.length_eraseIdx_le (s.eraseIdx 4) 6
        omega
      have hstol := stol_eq_none_iff hshort
      rcases hread : stol ((s.eraseIdx 4).eraseIdx 6) with _ | v
      · exact iff_of_true ⟨_, rfl⟩ ⟨hs, .inr (.inr (.inr (hstol.1 hread)))⟩
      · have hdigit : ¬ NoDigit ((s.eraseIdx 4).eraseIdx 6) := by
          rw [← hstol, hread]
          exact Option.some_ne_none v
        refine iff_of_false nofun ?_
        rintro ⟨-, hwrong | h4 | h7 | hnone⟩
        · exact hwrong hlength
        · exact hdash (.inl h4)
        · exact hdash (.inr h7)
        · exact hdigit hnone
  · rw [if_pos hlength]
    exact iff_of_true ⟨_, rfl⟩ ⟨hs, .inl hlength⟩

theorem parse_error_iff : (∃ err, Date.parse s = .error (.error err)) ↔ DateRefused s := by
  by_cases hs : s = []
  · subst hs
    simp [Date.parse, DateRefused]
  · rw [← dateToInt_error_iff hs]
    unfold Date.parse
    rw [if_neg hs]
    rcases dateToInt s with e | code
    · exact exists_congr fun err => ⟨fun h => by cases h; rfl, fun h => by cases h; rfl⟩
    · exact iff_of_false nofun nofun

/-- The digits between the dashes are read as one numeral. -/
theorem dateToInt_dashes {a b c : Bytes} (ha : a.length = 4) (hb : b.length = 2) (hc : c.length = 2)
    (hdigits : ∀ x ∈ a ++ b ++ c, isDigit x = true) :
    ∃ code, dateToInt (a ++ str "-" ++ b ++ str "-" ++ c) = .ok code ∧
      code.toNat = decimalValue (a ++ b ++ c) := by
  have hlength : (a ++ b ++ c).length = 8 := by simp [ha, hb, hc]
  have hne : a ++ b ++ c ≠ [] := List.ne_nil_of_length_pos (by omega)
  have hvalue := decimalValue_lt hdigits
  rw [hlength] at hvalue
  have hread : stol (a ++ b ++ c) = some (decimalValue (a ++ b ++ c) : ℤ) := by
    rw [stol_numeral ⟨hne, hdigits⟩, if_pos (by omega)]
  have herase : ((a ++ str "-" ++ b ++ str "-" ++ c).eraseIdx 4).eraseIdx 6 = a ++ b ++ c := by
    obtain ⟨a0, a1, a2, a3, rfl⟩ := List.length_eq_four.1 ha
    obtain ⟨b0, b1, rfl⟩ := List.length_eq_two.1 hb
    rfl
  refine ⟨UInt32.ofInt (decimalValue (a ++ b ++ c)), ?_, toNat_ofInt (by omega)⟩
  have hdashes : (a ++ str "-" ++ b ++ str "-" ++ c)[4]? = some 45 ∧
      (a ++ str "-" ++ b ++ str "-" ++ c)[7]? = some 45 := by
    obtain ⟨a0, a1, a2, a3, rfl⟩ := List.length_eq_four.1 ha
    obtain ⟨b0, b1, rfl⟩ := List.length_eq_two.1 hb
    exact ⟨rfl, rfl⟩
  have hten : (a ++ str "-" ++ b ++ str "-" ++ c).length = 10 := by simp [ha, hb, hc, str]
  unfold dateToInt
  dsimp only
  rw [if_neg (not_not.2 hten), if_neg (not_or.2 ⟨not_not.2 hdashes.1, not_not.2 hdashes.2⟩), herase, hread]

theorem ofCode_valid {y m d : ℕ} (h : IsDate y m d) (hy : y ≤ 9999) {code : UInt32}
    (hcode : code.toNat = 10000 * y + 100 * m + d) :
    (DateParts.ofCode code).Valid ∧ (DateParts.ofCode code).triple = (y, m, d) := by
  have hmonth := h.month
  have hday := h.day.2.trans (daysInMonth_le y m)
  have hparts : (DateParts.ofCode code).year.toNat = y ∧ (DateParts.ofCode code).month.toNat = m ∧
      (DateParts.ofCode code).day.toNat = d := by
    refine ⟨?_, ?_, ?_⟩
    · show code.toNat / 10000 % 2 ^ 16 = y
      omega
    · show code.toNat / 100 % 100 % 2 ^ 8 = m
      omega
    · show code.toNat % 100 % 2 ^ 8 = d
      omega
  refine ⟨⟨?_, ?_, ?_⟩, ?_⟩
  · rw [hparts.1, hparts.2.1, hparts.2.2]
    exact h
  · rw [hparts.1]
    exact hy
  · rw [hparts.1, hparts.2.1, hparts.2.2]
    exact hcode
  · rw [DateParts.triple, hparts.1, hparts.2.1, hparts.2.2]

/-- **The text of a date of the calendar is read** as that date. -/
theorem parse_isoDate {y m d : ℕ} (h : IsDate y m d) (hy : y ≤ 9999) :
    ∃ p : DateParts, Date.parse (isoDate y m d) = .ok (some p) ∧ p.Valid ∧ p.triple = (y, m, d) := by
  have hmonth := h.month
  have hday := h.day.2.trans (daysInMonth_le y m)
  have hd2 : (padded 2 d).length = 2 := length_padded (by omega) (by omega)
  have hm2 : (padded 2 m).length = 2 := length_padded (by omega) (by omega)
  have hy4 : (padded 4 y).length = 4 := length_padded (by omega) (by omega)
  have hdigits : ∀ x ∈ padded 4 y ++ padded 2 m ++ padded 2 d, isDigit x = true := by
    intro x hx
    rw [List.mem_append, List.mem_append] at hx
    rcases hx with (hx | hx) | hx <;> exact isDigit_padded hx
  obtain ⟨code, hread, hcode⟩ := dateToInt_dashes hy4 hm2 hd2 hdigits
  have hvalue : code.toNat = 10000 * y + 100 * m + d := by
    rw [hcode, decimalValue_append, decimalValue_append, decimalValue_padded, decimalValue_padded,
      decimalValue_padded, hm2, hd2]
    omega
  obtain ⟨hvalid, htriple⟩ := ofCode_valid h hy hvalue
  have hne : isoDate y m d ≠ [] := List.ne_nil_of_length_pos (by simp [isoDate, hy4])
  refine ⟨DateParts.ofCode code, ?_, hvalid, htriple⟩
  rw [Date.parse, if_neg hne, isoDate, hread]
  rfl

/-- What `int_to_date` puts before a month or a day of one digit. -/
theorem field_eq_padded {n : ℕ} (hn : n < 100) : (if n < 10 then str "0" else []) ++ decimal n = padded 2 n := by
  have hone := length_decimal_le_iff n (k := 1) le_rfl
  have htwo := length_decimal_le_iff n (k := 2) (by omega)
  have hpos := length_decimal_pos n
  unfold padded
  by_cases hsmall : n < 10
  · rw [if_pos hsmall, (by omega : 2 - (decimal n).length = 1)]
    rfl
  · rw [if_neg hsmall, (by omega : 2 - (decimal n).length = 0)]
    rfl

/-- **What a date is printed as.** -/
theorem intToDate_valid {p : DateParts} (hp : p.Valid) :
    intToDate p.code = .ok (decimal p.year.toNat ++ str "-" ++ padded 2 p.month.toNat ++ str "-" ++
      padded 2 p.day.toNat) := by
  have hmonth := hp.isDate.month
  have hday := hp.isDate.day.2.trans (daysInMonth_le _ _)
  have hyear := hp.year_le
  have hcode := hp.code_eq
  have hne : p.code ≠ 0 := by
    intro h
    have hpos := hp.code_pos
    rw [h] at hpos
    exact absurd hpos (by decide)
  -- the code is read back digit by digit, and no step of it wraps
  have hyearOf : (p.code / 10000).toUInt16 = p.year := by
    rw [← UInt16.toNat_inj, UInt32.toNat_toUInt16, UInt32.toNat_div]
    show p.code.toNat / 10000 % 2 ^ 16 = _
    omega
  have hrest : (p.code - p.year.toUInt32 * 10000).toNat = 100 * p.month.toNat + p.day.toNat := by
    have hproduct : (p.year.toUInt32 * 10000).toNat = 10000 * p.year.toNat := by
      rw [UInt32.toNat_mul, UInt16.toNat_toUInt32]
      show p.year.toNat * 10000 % 2 ^ 32 = _
      omega
    rw [UInt32.toNat_sub_of_le _ _ (UInt32.le_iff_toNat_le.2 (by omega)), hproduct]
    omega
  have hmonthOf : ((p.code - p.year.toUInt32 * 10000) / 100).toUInt16.toNat = p.month.toNat := by
    rw [UInt32.toNat_toUInt16, UInt32.toNat_div, hrest]
    show (100 * p.month.toNat + p.day.toNat) / 100 % 2 ^ 16 = _
    omega
  have hdayOf : (p.code - p.year.toUInt32 * 10000 -
      ((p.code - p.year.toUInt32 * 10000) / 100).toUInt16.toUInt32 * 100).toUInt16.toNat = p.day.toNat := by
    have hproduct : (((p.code - p.year.toUInt32 * 10000) / 100).toUInt16.toUInt32 * 100).toNat =
        100 * p.month.toNat := by
      rw [UInt32.toNat_mul, UInt16.toNat_toUInt32, hmonthOf]
      show p.month.toNat * 100 % 2 ^ 32 = _
      omega
    rw [UInt32.toNat_toUInt16, UInt32.toNat_sub_of_le _ _ (UInt32.le_iff_toNat_le.2 (by omega)), hproduct, hrest]
    omega
  -- two digits each for the month and the day
  unfold intToDate
  rw [if_neg hne]
  dsimp only
  rw [hyearOf]
  simp only [UInt16.lt_iff_toNat_lt, hmonthOf, hdayOf]
  have hten : (10 : UInt16).toNat = 10 := rfl
  rw [hten, field_eq_padded (by omega), field_eq_padded (by omega)]

/-- The printed text is the text read, from the year 1000 on. -/
theorem intToDate_iso_iff {p : DateParts} (hp : p.Valid) : intToDate p.code = .ok p.iso ↔ 1000 ≤ p.year.toNat := by
  have hpadded : padded 4 p.year.toNat = decimal p.year.toNat ↔ 1000 ≤ p.year.toNat :=
    padded_eq_decimal_iff p.year.toNat (by omega)
  rw [intToDate_valid hp, ← hpadded, DateParts.iso, isoDate]
  constructor
  · intro h
    have hcancel := Except.ok.inj h
    simp only [List.append_cancel_right_eq] at hcancel
    exact hcancel.symm
  · intro h
    rw [h]

/-- **The texts that are handled.** -/
theorem dateHandled_iff (s : Bytes) : DateHandled s ↔ s = [] ∨ IsoText s ∨ DateRefused s := by
  unfold DateHandled
  rw [parse_error_iff]
  constructor
  · rintro (⟨hempty, -⟩ | ⟨p, -, hvalid, rfl, hprint⟩ | hrefused)
    · exact .inl hempty
    · exact .inr (.inl ⟨_, _, _, hvalid.isDate, (intToDate_iso_iff hvalid).1 hprint, hvalid.year_le, rfl⟩)
    · exact .inr (.inr hrefused)
  · rintro (rfl | ⟨y, m, d, hdate, hlow, hhigh, rfl⟩ | hrefused)
    · exact .inl ⟨rfl, rfl⟩
    · obtain ⟨p, hparse, hvalid, htriple⟩ := parse_isoDate hdate hhigh
      obtain ⟨rfl, rfl, rfl⟩ : p.year.toNat = y ∧ p.month.toNat = m ∧ p.day.toNat = d := by
        simpa [DateParts.triple] using htriple
      exact .inr (.inl ⟨p, hparse, hvalid, rfl, (intToDate_iso_iff hvalid).2 hlow⟩)
    · exact .inr (.inr hrefused)

theorem DateParts.Valid.onCalendar {p : DateParts} (hp : p.Valid) : p.OnCalendar := ⟨hp.isDate, hp.code_eq⟩

/-- An accepted date is the date of its text, when its text is handled. -/
theorem DateHandled.valid (hs : DateHandled s) {p : DateParts} (hp : Date.parse s = .ok (some p)) : p.Valid := by
  rcases hs with ⟨-, hnone⟩ | ⟨q, hq, hvalid, -⟩ | ⟨err, herr⟩
  · rw [hnone] at hp
    cases hp
  · rw [hq] at hp
    cases hp
    exact hvalid
  · rw [herr] at hp
    cases hp

/-- Both texts are handled, and `operator<` is the order of time on the dates read. -/
structure DatesHandled (s s' : Bytes) : Prop where
  first : DateHandled s
  second : DateHandled s'
  chronological : ∀ p p', Date.parse s = .ok (some p) → Date.parse s' = .ok (some p') →
    (Date.lt (some p) (some p') = true ↔ p.Before p')

/-- **Dates are parsed exactly** when the texts are empty, dates from the year 1000 on, or refused. -/
theorem datesHandled_iff (s s' : Bytes) :
    DatesHandled s s' ↔ (s = [] ∨ IsoText s ∨ DateRefused s) ∧ (s' = [] ∨ IsoText s' ∨ DateRefused s') := by
  rw [← dateHandled_iff, ← dateHandled_iff]
  constructor
  · intro h
    exact ⟨h.first, h.second⟩
  · rintro ⟨hs, hs'⟩
    refine ⟨hs, hs', fun p p' hp hp' => ?_⟩
    have horder := code_lt_iff_before (hs.valid hp).onCalendar (hs'.valid hp').onCalendar
    rw [← horder]
    exact decide_eq_true_iff

/-- **A day that does not exist** is accepted. -/
theorem february_30 :
    Date.parse (str "2016-02-30") = .ok (some ⟨20160230, 30, 2, 2016⟩) ∧
      ¬ DatesHandled (str "2016-02-30") (str "2016-02-30") := by
  have hparse : Date.parse (str "2016-02-30") = .ok (some ⟨20160230, 30, 2, 2016⟩) := by decide +kernel
  refine ⟨hparse, fun h => ?_⟩
  have hday := (h.first.valid hparse).isDate.day.2
  exact absurd hday (by decide)

end DealsServer
