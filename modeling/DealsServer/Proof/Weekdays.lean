import DealsServer.Proof.Clearing
import DealsServer.Proof.Filters

/-!
# The weekday table

`DealsDatabase::addDeal` calls `day_of_week` for the departure date and for the return date, also when there is no
return date and the month of the undefined date is 0.

* `accepted_weekdaysSound_iff`: the table is read within its twelve entries exactly when a return date is given and both
  months are months. The weekdays stored are single bits in any case.
-/

namespace DealsServer

/-- The position of `t` that `day_of_week` reads. -/
def tableIndex (month : UInt8) : ℤ := (month.toNat : ℤ) - 1

/-- The payload as `DealsDatabase::addDeal` stores it, before it makes the record. -/
def Database.addPayload (db : Database) (w : World) (body : Bytes) : Except TableError Location :=
  (db.dataView.addRecord dealDataTable w.data (body.take (body.length % 2 ^ 32)) 0).1

/-- The dates that `DealsDatabase::addDeal` calls `day_of_week` for. -/
def dayOfWeekCalls (stored : Except TableError Location) (p : AddParams) : List DateParts :=
  match stored with
  | .error _ => []
  | .ok _ => [p.departureDate, p.returnDate.getD .zero]

/-- At most one bit is set, one of the bits 0 to 6. -/
def OneWeekday (mask : UInt8) : Prop := mask = 0 ∨ ∃ i : UInt8, i < 7 ∧ mask = 1 <<< i

/-- The lookups stay in the table and the weekdays of the record are single ones. -/
structure WeekdaysSound (db : Database) (w : World) (p : AddParams) (body : Bytes) : Prop where
  inTable : ∀ d ∈ dayOfWeekCalls (db.addPayload w body) p, 0 ≤ tableIndex d.month ∧ tableIndex d.month ≤ 11
  departureBit : ∀ now place, OneWeekday (dealRecord w.stray now place p).departureDayOfWeek
  returnBit : ∀ now place, OneWeekday (dealRecord w.stray now place p).returnDayOfWeek

/-- The month is one of the twelve. -/
def DateParts.RealMonth (d : DateParts) : Prop := 1 ≤ d.month.toNat ∧ d.month.toNat ≤ 12

theorem tableIndex_iff (d : DateParts) :
    (0 ≤ tableIndex d.month ∧ tableIndex d.month ≤ 11) ↔ d.RealMonth := by
  unfold tableIndex DateParts.RealMonth
  omega

/-- Within the table, nothing around it is read. -/
theorem dayOfWeek_inTable {d : DateParts} (hd : d.RealMonth) (stray stray' : ℤ → UInt8) :
    Date.dayOfWeek stray (some d) = Date.dayOfWeek stray' (some d) := by
  have hmonth : 1 ≤ d.month ∧ d.month ≤ 12 := by
    rw [UInt8.le_iff_toNat_le, UInt8.le_iff_toNat_le]
    exact hd
  simp only [Date.dayOfWeek, dayOfWeek, Option.getD_some, if_pos hmonth]

/-- **With real months** the record does not depend on what lies around the table. -/
theorem dealRecord_inTable {p : AddParams} (hdep : p.departureDate.RealMonth) {r : DateParts}
    (hret : p.returnDate = some r) (hr : r.RealMonth) (stray stray' : ℤ → UInt8) (now : UInt32) (place : Location) :
    dealRecord stray now place p = dealRecord stray' now place p := by
  unfold dealRecord Weekdays.ofDate
  rw [hret, dayOfWeek_inTable hdep stray stray', dayOfWeek_inTable hr stray stray']

theorem ofDate_oneWeekday (stray : ℤ → UInt8) (d : Date) : OneWeekday (Weekdays.ofDate stray d) :=
  Or.inr ⟨d.dayOfWeek stray, UInt8.lt_iff_toNat_lt.2 (dayOfWeek_lt stray d), rfl⟩

/-- An undefined date has no month. -/
theorem zero_not_realMonth : ¬ DateParts.zero.RealMonth := by
  rintro ⟨hlow, -⟩
  exact absurd hlow (by decide)

theorem getD_zero_realMonth (d : Date) : (d.getD .zero).RealMonth ↔ ∃ r ∈ d, r.RealMonth := by
  rcases d with _ | r
  · simp [zero_not_realMonth]
  · simp

theorem weekdaysSound_iff (db : Database) (w : World) (p : AddParams) (body : Bytes) :
    WeekdaysSound db w p body ↔
      (∃ err, db.addPayload w body = .error err) ∨
        (p.departureDate.RealMonth ∧ ∃ r ∈ p.returnDate, r.RealMonth) := by
  -- the bits are single whatever the table returns, so the months decide
  have hmonths : WeekdaysSound db w p body ↔
      ∀ d ∈ dayOfWeekCalls (db.addPayload w body) p, d.RealMonth := by
    constructor
    · intro h d hd
      exact (tableIndex_iff d).1 (h.inTable d hd)
    · intro h
      refine ⟨fun d hd => (tableIndex_iff d).2 (h d hd), ?_, ?_⟩
      · exact fun _ _ => ofDate_oneWeekday _ _
      · exact fun _ _ => ofDate_oneWeekday _ _
  rw [hmonths]
  rcases db.addPayload w body with err | place
  · simp [dayOfWeekCalls]
  · simp [dayOfWeekCalls, getD_zero_realMonth]

end DealsServer
