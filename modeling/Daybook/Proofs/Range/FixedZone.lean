import Daybook.Proofs.Range.Invalid

/-! # Ranges in a zone with one offset

Every local second comes just once there, and the bounds of a range are the milliseconds of its local
days. -/

namespace Daybook

variable {o : Offset} {r : Range} {b : Bounds}

namespace Instant

theorem exists_ofMillis? {ms : Int} (h : InCalendar (ms / 1000)) : ∃ i, ofMillis? ms = some i := by
  have hnano : (ms % 1000).toNat * 1000000 < 2000000000 := by omega
  exact ⟨_, dif_pos ⟨h, hnano⟩⟩

end Instant

namespace Zone

theorem dateAt_fixed (o : Offset) (i : Instant) :
    (fixed o).dateAt i = ⟨(i.second + o.seconds) / daySeconds⟩ :=
  rfl

theorem occurrences_fixed (o : Offset) (localSecond : Int) :
    (fixed o).occurrences localSecond = [localSecond - o.seconds] := by
  simp [occurrences, offsets, fixed, toLocal, offsetAt]

theorem candidates_fixed (o : Offset) (localSecond : Int) :
    (fixed o).candidates localSecond =
      if InCalendar (localSecond - o.seconds) then [localSecond - o.seconds] else [] := by
  simp [candidates, occurrences_fixed]

theorem earliest?_fixed (o : Offset) (localSecond : Int) (nano : Nat) :
    (fixed o).earliest? localSecond nano = Instant.of? (localSecond - o.seconds) nano := by
  rw [earliest?, candidates_fixed]
  split
  · rfl
  · next h => simp [Instant.of?, h]

theorem only?_fixed (o : Offset) (localSecond : Int) (nano : Nat) :
    (fixed o).only? localSecond nano = Instant.of? (localSecond - o.seconds) nano := by
  by_cases h : InCalendar (localSecond - o.seconds) <;>
    simp [only?, candidates_fixed, Instant.of?, h]

/-- The second at which a local day starts. -/
def dayStart (o : Offset) (number : Int) : Int :=
  number * daySeconds - o.seconds

/-- The same time of day some days earlier always comes once, if the calendar still has it. -/
theorem daysBefore?_fixed (o : Offset) (i : Instant) (days : Nat) :
    (fixed o).daysBefore? i days = Instant.of? (i.second - days * daySeconds) i.nano := by
  rw [daysBefore?, only?_fixed, toLocal_fixed]
  congr 1
  omega

theorem midnight?_fixed (o : Offset) (d : Date) :
    (fixed o).midnight? d = Instant.of? (dayStart o d.number) 0 :=
  earliest?_fixed o _ 0

theorem lacksMidnight_fixed_iff {d : Date} :
    (fixed o).LacksMidnight d ↔ ¬InCalendar (dayStart o d.number) := by
  rw [← midnight?_eq_none_iff, midnight?_fixed]
  simp [Instant.of?]

end Zone

open Zone

namespace Range

/-- The bounds of some local days, from the first one to the last one. -/
def dayBounds (o : Offset) (first last : Int) : Bounds :=
  ⟨dayStart o first * 1000, dayStart o (last + 1) * 1000⟩

theorem bounds_fixed_iff : r.bounds (fixed o) = .ok b ↔
    r.start ≤ r.stop ∧ ((fixed o).dateAt r.stop).number < Date.lastNumber ∧
      InCalendar (dayStart o ((fixed o).dateAt r.start).number) ∧
      InCalendar (dayStart o (((fixed o).dateAt r.stop).number + 1)) ∧
      b = dayBounds o ((fixed o).dateAt r.start).number ((fixed o).dateAt r.stop).number := by
  simp only [bounds_eq_ok_iff, midnight?_fixed, Instant.of?_eq_some_iff]
  constructor
  · rintro ⟨hle, hlast, lower, upper, ⟨hl, hln⟩, ⟨hu, hun⟩, rfl⟩
    refine ⟨hle, hlast, hl ▸ lower.inCalendar, hu ▸ upper.inCalendar, ?_⟩
    simp [dayBounds, Instant.millis, hl, hln, hu, hun]
  · rintro ⟨hle, hlast, hfirst, hnext, rfl⟩
    refine ⟨hle, hlast, ⟨_, 0, hfirst, by decide⟩, ⟨_, 0, hnext, by decide⟩, ⟨rfl, rfl⟩,
      ⟨rfl, rfl⟩, ?_⟩
    simp [dayBounds, Instant.millis]

/-- Days between two days of the calendar are in it. -/
theorem inCalendar_dayStart {first last number : Int} (hfirst : InCalendar (dayStart o first))
    (hlast : InCalendar (dayStart o last)) (hge : first ≤ number) (hle : number ≤ last) :
    InCalendar (dayStart o number) := by
  simp only [InCalendar, dayStart, daySeconds] at hfirst hlast ⊢
  omega

theorem number_dateAt_le {i j : Instant} (h : i ≤ j) :
    ((fixed o).dateAt i).number ≤ ((fixed o).dateAt j).number := by
  rw [Instant.le_def] at h
  simp only [dateAt_fixed, daySeconds]
  omega

/-- The bounds hold the milliseconds of the local days, and no others. -/
theorem mem_dayBounds_iff {first last : Int} (hfirst : InCalendar (dayStart o first))
    (hlast : InCalendar (dayStart o (last + 1))) (ms : Int) :
    (dayBounds o first last).lower ≤ ms ∧ ms < (dayBounds o first last).upper ↔
      ∃ i, Instant.ofMillis? ms = some i ∧ first ≤ ((fixed o).dateAt i).number ∧
        ((fixed o).dateAt i).number ≤ last := by
  simp only [InCalendar, dayStart, daySeconds] at hfirst hlast
  simp only [dayBounds, dayStart, dateAt_fixed, daySeconds]
  constructor
  · rintro ⟨hlower, hupper⟩
    have hsecond : InCalendar (ms / 1000) := by
      simp only [InCalendar, daySeconds]
      omega
    obtain ⟨i, hi⟩ := Instant.exists_ofMillis? hsecond
    have hs := Instant.second_of_ofMillis? hi
    exact ⟨i, hi, by omega, by omega⟩
  · rintro ⟨i, hi, hge, hle⟩
    have hs := Instant.second_of_ofMillis? hi
    omega

/-! ## Ranges without bounds -/

/-- The day after a day of the calendar that an instant lies in starts inside the calendar. -/
theorem inCalendar_dayStart_succ {i : Instant}
    (h : ((fixed o).dateAt i).number < Date.lastNumber) :
    InCalendar (dayStart o (((fixed o).dateAt i).number + 1)) := by
  have hi := i.inCalendar
  have hgt := o.gt
  simp only [InCalendar, dayStart, dateAt_fixed, daySeconds, Date.lastNumber] at hi h ⊢
  omega

/-- No local day of an instant starts after the calendar. -/
theorem inCalendar_dayStart_iff (i : Instant) :
    InCalendar (dayStart o ((fixed o).dateAt i).number) ↔
      Date.firstNumber * daySeconds ≤ dayStart o ((fixed o).dateAt i).number := by
  have hi := i.inCalendar
  simp only [InCalendar, dayStart, dateAt_fixed, daySeconds] at hi ⊢
  omega

/-- Why a range in a zone with one offset has no bounds. -/
inductive Unbounded (o : Offset) (r : Range) : RangeError → Prop
  /-- The range starts after it ends. -/
  | reversed (h : r.stop < r.start) : Unbounded o r (.reversed r.start.millis r.stop.millis)
  /-- The last day is the last one of the calendar. A local clock past the calendar comes under this too,
  although it shows no calendar day: whoever asks for that day breaks off and refuses nothing. -/
  | lastDay (h : r.start ≤ r.stop) (hlast : Date.lastNumber ≤ ((fixed o).dateAt r.stop).number) :
      Unbounded o r (.lastDay ((fixed o).dateAt r.stop))
  /-- The first day starts before the first instant of the calendar. -/
  | noMidnight (h : r.start ≤ r.stop) (hlast : ((fixed o).dateAt r.stop).number < Date.lastNumber)
      (hfirst : dayStart o ((fixed o).dateAt r.start).number < Date.firstNumber * daySeconds) :
      Unbounded o r (.noMidnight ((fixed o).dateAt r.start))

theorem bounds_eq_error_iff {e : RangeError} :
    r.bounds (fixed o) = .error e ↔ Unbounded o r e := by
  rw [bounds_eq_error_iff_refused]
  constructor
  · intro h
    cases h with
    | reversed hlt => exact .reversed hlt
    | lastDay hle hlast => exact .lastDay hle hlast
    | noFirstMidnight hle hlast hlacks =>
      rw [lacksMidnight_fixed_iff, inCalendar_dayStart_iff, Int.not_le] at hlacks
      exact .noMidnight hle hlast hlacks
    | noNextMidnight hle hlast _ hlacks =>
      exact absurd (inCalendar_dayStart_succ hlast) (lacksMidnight_fixed_iff.mp hlacks)
  · intro h
    cases h with
    | reversed hlt => exact .reversed hlt
    | lastDay hle hlast => exact .lastDay hle hlast
    | noMidnight hle hlast hfirst =>
      rw [← Int.not_le, ← inCalendar_dayStart_iff] at hfirst
      exact .noFirstMidnight hle hlast (lacksMidnight_fixed_iff.mpr hfirst)

/-- A range has bounds unless it is reversed or reaches an end of the calendar. They hold the
milliseconds of its local days and no others, as many as there are in those days. -/
theorem bounds_hold_local_days (o : Offset) (r : Range) :
    (∀ e, r.bounds (fixed o) = .error e ↔ Unbounded o r e) ∧
    ∀ b, r.bounds (fixed o) = .ok b →
      (∀ ms i, Instant.ofMillis? ms = some i →
        (b.lower ≤ ms ∧ ms < b.upper ↔
          ((fixed o).dateAt r.start).number ≤ ((fixed o).dateAt i).number ∧
            ((fixed o).dateAt i).number ≤ ((fixed o).dateAt r.stop).number)) ∧
      b.upper - b.lower = (r.spanDays (fixed o) + 1) * dayMillis := by
  refine ⟨fun e => bounds_eq_error_iff, fun b hb => ?_⟩
  obtain ⟨-, -, hfirst, hnext, rfl⟩ := bounds_fixed_iff.mp hb
  constructor
  · intro ms i hi
    rw [mem_dayBounds_iff hfirst hnext ms, hi]
    simp
  · simp only [dayBounds, dayStart, spanDays, Date.daysTo, daySeconds, dayMillis]
    omega

end Range

end Daybook
