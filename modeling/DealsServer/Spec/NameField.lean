import DealsServer.Spec.SharedMemory

/-!
# Names in fixed arrays (`TablePageIndexElement`, `deals::i::DealInfo`)

The bytes of a `char page_name[MEMPAGE_NAME_MAX_LEN]`, with `memcpy` and `strncpy` into it and its reading as a C
string. `none` stands for an access behind the array.
-/

namespace DealsServer

/-- `char[MEMPAGE_NAME_MAX_LEN]`. -/
structure NameField where
  bytes : List UInt8
  length_eq : bytes.length = mempageNameMaxLen
  deriving DecidableEq, Repr

namespace NameField

/-- The field of a zeroed record. -/
def zeros : NameField := ⟨List.replicate mempageNameMaxLen 0, List.length_replicate⟩

/-- `memcpy(field, name.c_str(), name.length())`, as `addRecord` copies into an index entry. -/
def memcpy (field : NameField) (name : Bytes) : Option NameField :=
  if h : name.length ≤ mempageNameMaxLen then
    some ⟨name ++ field.bytes.drop name.length, by
      rw [List.length_append, List.length_drop, field.length_eq]
      omega⟩
  else none

/-- `strncpy(field, name.c_str(), MEMPAGE_NAME_MAX_LEN)`, as `addDeal` copies into a `DealInfo`: the bytes up to the
first zero, as far as they fit, and zeros behind them. -/
def strncpy (name : Bytes) : NameField :=
  ⟨((name.takeWhile (· ≠ 0)).take mempageNameMaxLen).rightpad mempageNameMaxLen 0, by
    rw [List.length_rightpad, List.length_take]
    omega⟩

/-- The field read as a C string. -/
def cString (field : NameField) : Option Bytes :=
  if 0 ∈ field.bytes then some (field.bytes.takeWhile (· ≠ 0)) else none

end NameField

end DealsServer
