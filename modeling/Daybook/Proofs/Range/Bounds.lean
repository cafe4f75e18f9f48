import Daybook.Proofs.Calendar.LocalTimes
import Daybook.Range.Basic

/-! # Bounds of a range

A range has bounds if both of its midnights exist. They hold the whole selection as long as no clock of
the zone goes back over one of the two. -/

namespace Daybook

variable {z : Zone} {r : Range} {b : Bounds} {i : Instant}

/-! ## Midnights -/

namespace Zone

variable {d : Date}

theorem millis_midnight? (h : z.midnight? d = some i) : i.millis = i.second * 1000 := by
  obtain ⟨⟨-, hnano⟩, -⟩ := earliest?_eq_some_iff.mp h
  simp [Instant.millis, hnano]

theorem midnight_eq_ok_iff : z.midnight d = .ok i ↔ z.midnight? d = some i := by
  rw [midnight]
  split <;> simp_all

/-- A clock in the zone has shown the local second, by some second in UTC. -/
def HasShown (z : Zone) (localSecond second : Int) : Prop :=
  ∃ s ≤ second, z.toLocal s = localSecond

theorem hasShown_midnight_iff (h : z.midnight? d = some i) (second : Int) :
    z.HasShown (d.number * daySeconds) second ↔ i.second ≤ second := by
  obtain ⟨⟨hshown, -⟩, hfirst⟩ := earliest?_eq_some_iff.mp h
  constructor
  · rintro ⟨s, hle, hs⟩
    exact Int.le_trans (hfirst s hs).2 hle
  · exact fun hle => ⟨i.second, hle, hshown⟩

end Zone

/-! ## Bounds -/

namespace Range

theorem bounds_of_lt (h : r.stop < r.start) :
    r.bounds z = .error (.reversed r.start.millis r.stop.millis) :=
  if_pos h

theorem bounds_of_lastNumber_le (h : r.start ≤ r.stop)
    (hlast : Date.lastNumber ≤ (z.dateAt r.stop).number) :
    r.bounds z = .error (.lastDay (z.dateAt r.stop)) := by
  have hnone : (z.dateAt r.stop).succ? = none := if_neg (Int.not_lt.mpr hlast)
  rw [bounds, if_neg (Instant.not_lt.mpr h), hnone]

/-- A range that is in order is bounded by its two midnights. -/
theorem bounds_of_lt_lastNumber (h : r.start ≤ r.stop)
    (hlast : (z.dateAt r.stop).number < Date.lastNumber) :
    r.bounds z = do
      let lower ← z.midnight (z.dateAt r.start)
      let upper ← z.midnight ⟨(z.dateAt r.stop).number + 1⟩
      return ⟨lower.millis, upper.millis⟩ := by
  have hsome : (z.dateAt r.stop).succ? = some ⟨(z.dateAt r.stop).number + 1⟩ := if_pos hlast
  rw [bounds, if_neg (Instant.not_lt.mpr h), hsome]

theorem bounds_eq_ok_iff : r.bounds z = .ok b ↔
    r.start ≤ r.stop ∧ (z.dateAt r.stop).number < Date.lastNumber ∧
      ∃ lower upper, z.midnight? (z.dateAt r.start) = some lower ∧
        z.midnight? ⟨(z.dateAt r.stop).number + 1⟩ = some upper ∧
        b = ⟨lower.millis, upper.millis⟩ := by
  by_cases hlt : r.stop < r.start
  · have hle : ¬r.start ≤ r.stop := fun hle => Instant.not_lt.mpr hle hlt
    simp [bounds_of_lt hlt, hle]
  have hle : r.start ≤ r.stop := Instant.not_lt.mp hlt
  by_cases hlast : (z.dateAt r.stop).number < Date.lastNumber
  · rw [bounds_of_lt_lastNumber hle hlast]
    simp only [hle, hlast, true_and, ← Zone.midnight_eq_ok_iff]
    cases z.midnight (z.dateAt r.start) with
    | error e => simp [bind, Except.bind]
    | ok lower =>
      cases z.midnight ⟨(z.dateAt r.stop).number + 1⟩ with
      | error e => simp [bind, Except.bind]
      | ok upper => simp [bind, Except.bind, pure, Except.pure, eq_comm]
  · simp [bounds_of_lastNumber_le hle (Int.not_lt.mp hlast), hlast]

/-- The bounds hold the selection if they hold its first and its last second. They hold the first one
exactly if a clock has shown the midnight of the first day by then, and the last one exactly if it has
not shown the midnight after the last day yet. -/
theorem bounds_hold_selection (h : r.bounds z = .ok b) :
    (b.lower ≤ r.start.second * 1000 ↔
      z.HasShown ((z.dateAt r.start).number * daySeconds) r.start.second) ∧
    (r.stop.second * 1000 < b.upper ↔
      ¬z.HasShown (((z.dateAt r.stop).number + 1) * daySeconds) r.stop.second) ∧
    (b.lower ≤ r.start.second * 1000 → r.stop.second * 1000 < b.upper →
      ∀ ms i, Instant.ofMillis? ms = some i → r.start ≤ i → i ≤ r.stop →
        b.lower ≤ ms ∧ ms < b.upper) := by
  obtain ⟨-, -, lower, upper, hlower, hupper, rfl⟩ := bounds_eq_ok_iff.mp h
  have hl := Zone.millis_midnight? hlower
  have hu := Zone.millis_midnight? hupper
  refine ⟨?_, ?_, ?_⟩
  · rw [Zone.hasShown_midnight_iff hlower]
    simp only [hl]
    omega
  · rw [Zone.hasShown_midnight_iff hupper]
    simp only [hu]
    omega
  · intro hstart hstop ms i hi hge hle
    -- Both bounds are whole seconds, so the seconds of the instant decide.
    have hs := Instant.second_of_ofMillis? hi
    rw [Instant.le_def] at hge hle
    simp only [hl, hu] at hstart hstop ⊢
    omega

/-- Clocks that go back once from 03:00 to 02:00. -/
def backAtThree : Zone :=
  ⟨⟨7200, by decide, by decide⟩, [(1792890000, ⟨3600, by decide, by decide⟩)]⟩

/-- The day of 25 hours, from 00:30 to 23:30. -/
def longDay : Range :=
  ⟨⟨1792881000, 0, by decide, by decide⟩, ⟨1792967400, 0, by decide, by decide⟩⟩

theorem bounds_hold_selection_long_day :
    longDay.bounds backAtThree = .ok ⟨1792879200000, 1792969200000⟩ ∧
      backAtThree.HasShown (20751 * daySeconds) longDay.start.second ∧
      ¬backAtThree.HasShown (20752 * daySeconds) longDay.stop.second ∧
      ∀ ms i, Instant.ofMillis? ms = some i → longDay.start ≤ i → i ≤ longDay.stop →
        1792879200000 ≤ ms ∧ ms < 1792969200000 := by
  have hb : longDay.bounds backAtThree = .ok ⟨1792879200000, 1792969200000⟩ := rfl
  obtain ⟨hfirst, hlast, hall⟩ := bounds_hold_selection hb
  exact ⟨hb, hfirst.mp (by decide), hlast.mp (by decide), hall (by decide) (by decide)⟩

/-- Clocks that go back once from 00:01 to 23:01 of the day before. -/
def backOverMidnight : Zone :=
  ⟨⟨-9000, by decide, by decide⟩, [(1162089060, ⟨-12600, by decide, by decide⟩)]⟩

/-- From noon to half past eleven, after the clocks went back. -/
def longEvening : Range :=
  ⟨⟨1162045800, 0, by decide, by decide⟩, ⟨1162090800, 0, by decide, by decide⟩⟩

/-- Where the clocks go back over midnight, the repeated end of a day comes after the midnight that ends
its bounds. -/
theorem longEvening_outside_bounds :
    ∃ b, longEvening.bounds backOverMidnight = .ok b ∧
      ∃ ms i, Instant.ofMillis? ms = some i ∧ longEvening.start ≤ i ∧ i ≤ longEvening.stop ∧
        ¬(b.lower ≤ ms ∧ ms < b.upper) :=
  ⟨⟨1162002600000, 1162089000000⟩, rfl, 1162090800000, longEvening.stop, rfl, by decide, by decide,
    by decide⟩

end Range

end Daybook
