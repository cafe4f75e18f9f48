import Daybook.Proofs.Range.FixedZone
import Daybook.View.Basic

/-! # One range at two offsets

Ranges are equal when their instants are, and a view takes equal ranges for one. What a range asks for
follows local days, though: only at offsets whose clocks show the same time of day do equal ranges ask
for the same. -/

namespace Daybook

open Zone

/-- Clocks at the two offsets show the same time of day, perhaps on different days. -/
def Offset.SameClock (o o' : Offset) : Prop :=
  (o.seconds - o'.seconds) % daySeconds = 0

instance (o o' : Offset) : Decidable (o.SameClock o') :=
  inferInstanceAs (Decidable (_ = _))

namespace Range

variable {o o' : Offset} {r : Range} {b b' : Bounds}

/-- Clocks that show the same time of day start the days of an instant together, and no others do. -/
theorem dayStart_dateAt_eq_iff (o o' : Offset) (i : Instant) :
    dayStart o ((fixed o).dateAt i).number = dayStart o' ((fixed o').dateAt i).number ↔
      o.SameClock o' := by
  simp only [dayStart, dateAt_fixed, Offset.SameClock, daySeconds]
  omega

theorem dayStart_succ (o : Offset) (number : Int) :
    dayStart o (number + 1) = dayStart o number + daySeconds := by
  simp only [dayStart, daySeconds]
  omega

/-- The span of a range is the time between the starts of its first day and its last one. -/
theorem spanDays_mul_daySeconds (o : Offset) (r : Range) :
    r.spanDays (fixed o) * daySeconds =
      dayStart o ((fixed o).dateAt r.stop).number - dayStart o ((fixed o).dateAt r.start).number := by
  simp only [spanDays, Date.daysTo, dayStart, daySeconds]
  omega

theorem spanDays_eq_of_sameClock (h : o.SameClock o') (r : Range) :
    r.spanDays (fixed o) = r.spanDays (fixed o') := by
  have hmul : r.spanDays (fixed o) * daySeconds = r.spanDays (fixed o') * daySeconds := by
    rw [spanDays_mul_daySeconds, spanDays_mul_daySeconds, (dayStart_dateAt_eq_iff o o' _).mpr h,
      (dayStart_dateAt_eq_iff o o' _).mpr h]
  exact Int.eq_of_mul_eq_mul_right (by decide) hmul

theorem bounds_eq_iff_sameClock (hb : r.bounds (fixed o) = .ok b)
    (hb' : r.bounds (fixed o') = .ok b') : b = b' ↔ o.SameClock o' := by
  obtain ⟨-, -, -, -, rfl⟩ := bounds_fixed_iff.mp hb
  obtain ⟨-, -, -, -, rfl⟩ := bounds_fixed_iff.mp hb'
  have hstart := dayStart_dateAt_eq_iff o o' r.start
  have hstop := dayStart_dateAt_eq_iff o o' r.stop
  rw [dayBounds, dayBounds, Bounds.mk.injEq, dayStart_succ, dayStart_succ]
  constructor
  · rintro ⟨hlower, -⟩
    exact hstart.mp (by omega)
  · intro h
    rw [hstart.mpr h, hstop.mpr h]
    exact ⟨rfl, rfl⟩

/-- A range that has bounds at two offsets has the same ones just if clocks at the two show the same time
of day, and then its spans are the same. A range that is reversed is refused alike at all offsets. A
view that shows the range for one offset fetches nothing for the other one, be the bounds there the
same or not. -/
theorem same_query_iff_sameClock (o o' : Offset) (r : Range) :
    (∀ b b', r.bounds (fixed o) = .ok b → r.bounds (fixed o') = .ok b' →
      (b = b' ↔ o.SameClock o')) ∧
    (o.SameClock o' → r.spanDays (fixed o) = r.spanDays (fixed o')) ∧
    (r.stop < r.start → r.bounds (fixed o) = r.bounds (fixed o')) ∧
    ∀ {α : Type} (v : View Range α), v.active = some r → v.set r = (v, none) := by
  refine ⟨fun b b' => bounds_eq_iff_sameClock, fun h => spanDays_eq_of_sameClock h r, ?_,
    fun v => View.set_of_active⟩
  intro hlt
  rw [bounds_of_lt hlt, bounds_of_lt hlt]

/-- The range goes from half past ten to half past eleven in the evening of October 19th, 2026, in UTC. An
hour east of UTC it ends on the following day and the bounds are those of two days, but a view that
shows it for UTC fetches nothing for the other offset. -/
theorem late_hour_asks_for_more_east :
    let lateHour : Range :=
      ⟨⟨1792449000, 0, by decide, by decide⟩, ⟨1792452600, 0, by decide, by decide⟩⟩
    let o : Offset := .utc
    let o' : Offset := ⟨3600, by decide, by decide⟩
    lateHour.bounds (fixed o) = .ok ⟨1792368000000, 1792454400000⟩ ∧
      lateHour.spanDays (fixed o) = 0 ∧
      lateHour.bounds (fixed o') = .ok ⟨1792364400000, 1792537200000⟩ ∧
      lateHour.spanDays (fixed o') = 1 ∧
      ∀ {α : Type} (v : View Range α), v.active = some lateHour → v.set lateHour = (v, none) := by
  intro lateHour o o'
  refine ⟨?_, ?_, ?_, ?_, ?_⟩
  · exact bounds_fixed_iff.mpr (by decide +kernel)
  · decide +kernel
  · exact bounds_fixed_iff.mpr (by decide +kernel)
  · decide +kernel
  · exact fun v => View.set_of_active

end Range

end Daybook
