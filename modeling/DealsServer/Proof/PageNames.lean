import DealsServer.Spec.AddDeal
import DealsServer.Spec.NameField
import DealsServer.Spec.Table
import Mathlib.Data.List.TakeWhile

/-!
# Where page names fit

`SharedMemoryPage` takes names of up to 14 bytes, so as to leave room for the suffix of a page, but it takes the
names with their suffix too.

* `nameFits_iff`: the name of a page is accepted, and survives in an index entry and in a `DealInfo`, exactly if the
  name of the table has at most 12 bytes and no zero, and the index has no more digits than are left of 13.
* `longTable_refused`: a table name of 13 bytes is accepted, and that of its first page is not.
-/

namespace DealsServer

open Decimal

/-! ## Fields -/

theorem takeWhile_zeros {name : Bytes} (hname : 0 ∉ name) (n : ℕ) :
    (name ++ List.replicate n 0).takeWhile (· ≠ 0) = name := by
  have hall : ∀ b ∈ name, decide (b ≠ 0) = true := by
    intro b hb
    refine decide_eq_true fun hzero => hname ?_
    rwa [hzero] at hb
  rw [List.takeWhile_append_of_pos hall]
  cases n <;> simp [List.replicate_succ]

/-- **A C string** is what stands before the zeros of its field. -/
theorem cString_zeros {field : NameField} {name : Bytes} {n : ℕ} (hbytes : field.bytes = name ++ List.replicate n 0)
    (hpos : 0 < n) (hname : 0 ∉ name) : field.cString = some name := by
  have hzero : (0 : UInt8) ∈ field.bytes := by
    rw [hbytes]
    exact List.mem_append_right _ (List.mem_replicate.2 ⟨by omega, rfl⟩)
  rw [NameField.cString, if_pos hzero, hbytes, takeWhile_zeros hname]

/-- A C string has no zero. -/
theorem cString_no_zero {field : NameField} {name : Bytes} (h : field.cString = some name) : 0 ∉ name := by
  unfold NameField.cString at h
  split_ifs at h
  cases h
  intro hmem
  exact absurd (List.mem_takeWhile_imp hmem) (by simp)

/-- `memcpy` into a zeroed field, as far as the name fits. -/
theorem memcpy_zeros {name : Bytes} (hlen : name.length < mempageNameMaxLen) (hname : 0 ∉ name) :
    ((NameField.zeros.memcpy name).bind NameField.cString) = some name := by
  rw [NameField.memcpy, dif_pos hlen.le, Option.bind_some]
  refine cString_zeros (n := mempageNameMaxLen - name.length) ?_ (by omega) hname
  show name ++ (List.replicate mempageNameMaxLen 0).drop name.length = _
  rw [List.drop_replicate]

/-- `strncpy`, as far as the name fits. -/
theorem strncpy_cString {name : Bytes} (hlen : name.length < mempageNameMaxLen) (hname : 0 ∉ name) :
    (NameField.strncpy name).cString = some name := by
  have hwhole : name.takeWhile (· ≠ 0) = name := by
    have h := takeWhile_zeros hname 0
    rwa [List.replicate_zero, List.append_nil] at h
  refine cString_zeros (n := mempageNameMaxLen - name.length) ?_ (by omega) hname
  show ((name.takeWhile (· ≠ 0)).take mempageNameMaxLen).rightpad mempageNameMaxLen 0 = _
  rw [hwhole, List.take_of_length_le hlen.le, List.rightpad]

/-- The names in the records of the model are the C strings of their fields. -/
theorem copyName_cString (cfg : TableConfig) {name : Bytes} (hlen : name.length < mempageNameMaxLen)
    (hname : 0 ∉ name) :
    (NameField.zeros.memcpy name).bind NameField.cString =
      some ((TablePageIndexElement.clearFull cfg).copyName name).pageName := by
  rw [memcpy_zeros hlen hname]
  simp [TablePageIndexElement.clearFull, TablePageIndexElement.copyName]

theorem dealRecord_cString (stray : ℤ → UInt8) (now : UInt32) {place : Location} (p : AddParams)
    (hlen : place.pageName.length < mempageNameMaxLen) (hname : 0 ∉ place.pageName) :
    (NameField.strncpy place.pageName).cString = some (dealRecord stray now place p).pageName := by
  rw [strncpy_cString hlen hname]
  show _ = some (place.pageName.take mempageNameMaxLen)
  rw [List.take_of_length_le hlen.le]

/-! ## Names of pages -/

/-- The constructor of `SharedMemoryPage` does not refuse the name, whatever is shared and however the system calls
end. -/
def NameAccepted (name : Bytes) : Prop :=
  ∀ (α : Type) [Inhabited α] (sh : SharedMemory α) (res : OpenResult),
    (sh.openPage name res).1 ≠ .error .emptyPageName ∧ (sh.openPage name res).1 ≠ .error .longPageName

/-- A name that is too long is refused in each attempt. -/
theorem openPage_long {α : Type} [Inhabited α] (sh : SharedMemory α) {name : Bytes} (res : OpenResult)
    (hlen : mempageNameMaxLen - 6 < name.length) : (sh.openPage name res).1 = .error .longPageName := by
  have hne : name ≠ [] := List.length_pos_iff.1 (by omega)
  unfold SharedMemory.openPage
  rw [if_neg hne, if_pos hlen]

/-- **Which names are accepted.** -/
theorem nameAccepted_iff (name : Bytes) : NameAccepted name ↔ name ≠ [] ∧ name.length ≤ mempageNameMaxLen - 6 := by
  constructor
  · intro h
    obtain ⟨hempty, hlong⟩ := h Unit .init .mapped
    constructor
    · intro hnil
      apply hempty
      unfold SharedMemory.openPage
      rw [if_pos hnil]
    · by_contra hlen
      exact hlong (openPage_long _ _ (by omega))
  · rintro ⟨hne, hlen⟩ α _ sh res
    unfold SharedMemory.openPage
    rw [if_neg hne, if_neg (by omega)]
    rcases hopen : sh.names name with _ | o
    · cases res <;> simp
    · cases res <;> simp <;> split_ifs <;> simp

/-- The name fits wherever it is stored. -/
structure NameFits (name : Bytes) : Prop where
  accepted : NameAccepted name
  indexEntry : (NameField.zeros.memcpy name).bind NameField.cString = some name
  dealInfo : (NameField.strncpy name).cString = some name

/-- An accepted name without a zero fits. -/
theorem nameFits_of_accepted {name : Bytes} (h : NameAccepted name) (hname : 0 ∉ name) : NameFits name := by
  have hlen : name.length < mempageNameMaxLen := by
    have hle := ((nameAccepted_iff name).1 h).2
    unfold mempageNameMaxLen at hle ⊢
    omega
  exact ⟨h, memcpy_zeros hlen hname, strncpy_cString hlen hname⟩

theorem pageName_length (cfg : TableConfig) (idx : ℕ) :
    (cfg.pageName idx).length = cfg.tableName.length + 1 + (decimal idx).length := by
  rw [TableConfig.pageName, List.length_append, List.length_append]
  rfl

theorem zero_mem_pageName_iff (cfg : TableConfig) (idx : ℕ) : 0 ∈ cfg.pageName idx ↔ 0 ∈ cfg.tableName := by
  have hdigits : (0 : UInt8) ∉ decimal idx := fun h => absurd (isDigit_decimal h) (by decide)
  have hcolon : (0 : UInt8) ∉ str ":" := by decide
  simp [TableConfig.pageName, hdigits, hcolon]

/-- **When the name of a page fits.** -/
theorem nameFits_iff (cfg : TableConfig) (idx : ℕ) :
    NameFits (cfg.pageName idx) ↔
      0 ∉ cfg.tableName ∧ cfg.tableName.length ≤ 12 ∧ idx < 10 ^ (13 - cfg.tableName.length) := by
  have hlength := pageName_length cfg idx
  have hpos := length_decimal_pos idx
  have hne : cfg.pageName idx ≠ [] := List.length_pos_iff.1 (by omega)
  constructor
  · intro h
    have hlen := ((nameAccepted_iff _).1 h.accepted).2
    unfold mempageNameMaxLen at hlen
    refine ⟨?_, by omega, (length_decimal_le_iff idx (by omega)).1 (by omega)⟩
    rw [← zero_mem_pageName_iff cfg idx]
    exact cString_no_zero h.dealInfo
  · rintro ⟨hzero, hshort, hidx⟩
    have hdigits := (length_decimal_le_iff idx (by omega)).2 hidx
    refine nameFits_of_accepted ((nameAccepted_iff _).2 ⟨hne, ?_⟩) (mt (zero_mem_pageName_iff cfg idx).1 hzero)
    unfold mempageNameMaxLen
    omega

/-- A table with a name of 13 bytes. -/
def longTable : TableConfig := ⟨str "TopDstArchive", 1, 100, 60, by decide, by decide⟩

/-- **The suffix does not fit behind every table name.** The name of 13 bytes is accepted for the index page, and each
attempt to map the first page ends with `LONG_PAGE_NAME`. -/
theorem longTable_refused :
    NameAccepted longTable.tableName ∧ 0 < longTable.tableMaxPages ∧ ¬ NameFits (longTable.pageName 0) ∧
      ∀ (α : Type) [Inhabited α] (sh : SharedMemory α) (res : OpenResult),
        (sh.openPage (longTable.pageName 0) res).1 = .error .longPageName := by
  have hlong : mempageNameMaxLen - 6 < (longTable.pageName 0).length := by decide
  refine ⟨(nameAccepted_iff _).2 ⟨by decide, by decide⟩, by decide, fun h => ?_, fun α _ sh res => openPage_long sh res hlong⟩
  have hle := ((nameAccepted_iff _).1 h.accepted).2
  omega

end DealsServer
