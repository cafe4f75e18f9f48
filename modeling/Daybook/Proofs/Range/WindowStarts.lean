import Daybook.Proofs.Range.Trailing

/-! # Where windows start

A window starts as many days before the end of its range as its length says, at the same local time of
day. A window that would start at a local time which the zone skips or repeats is left out. -/

namespace Daybook

variable {z : Zone} {r q : Range} {b : Bounds} {w : Window} {i : Instant}

namespace Range

/-- The local second at which a window of the range would start. -/
def windowStart (z : Zone) (r : Range) (w : Window) : Int :=
  z.toLocal r.stop.second - w.days * daySeconds

theorem tail?_eq_some_iff : r.tail? z w = some q ↔ q.stop = r.stop ∧
    q.start.nano = r.stop.nano ∧ ∀ s, z.toLocal s = r.windowStart z w ↔ s = q.start.second := by
  obtain ⟨start, stop⟩ := q
  simp only [tail?, Zone.daysBefore?, Option.map_eq_some_iff, Zone.only?_eq_some_iff, Range.mk.injEq]
  constructor
  · rintro ⟨i, hi, rfl, rfl⟩
    exact ⟨rfl, hi⟩
  · rintro ⟨rfl, hi⟩
    exact ⟨start, hi, rfl, rfl⟩

/-- A window has a start if its local time comes just once. -/
theorem exists_tail?_iff : (∃ q, r.tail? z w = some q) ↔ z.ShowsOnce (r.windowStart z w) := by
  constructor
  · rintro ⟨q, hq⟩
    exact ⟨q.start, (tail?_eq_some_iff.mp hq).2.2⟩
  · rintro ⟨i, hi⟩
    let start : Instant := ⟨i.second, r.stop.nano, i.inCalendar, r.stop.nano_lt⟩
    exact ⟨⟨start, r.stop⟩, tail?_eq_some_iff.mpr ⟨rfl, rfl, hi⟩⟩

theorem exists_mem_trailing_iff : (∃ q, (w, q) ∈ r.trailing z) ↔
    (w.days : Int) ≤ r.spanDays z ∧ z.ShowsOnce (r.windowStart z w) := by
  simp only [mem_trailing, exists_and_left, exists_tail?_iff]

/-! ## Windows that are there -/

/-- What a window of a range is: it ends where the range ends and starts the days of the window before,
at the same time of day, which comes only once on that day. -/
structure IsTail (z : Zone) (r : Range) (w : Window) (q : Range) : Prop where
  stop_eq : q.stop = r.stop
  date_start : z.dateAt q.start = ⟨(z.dateAt r.stop).number - w.days⟩
  timeOfDay_start : z.toLocal q.start.second % daySeconds = z.toLocal r.stop.second % daySeconds
  nano_start : q.start.nano = r.stop.nano
  unique_start : ∀ s, z.toLocal s = z.toLocal q.start.second → s = q.start.second
  spanDays_eq : q.spanDays z = w.days
  days_le : (w.days : Int) ≤ r.spanDays z

/-- Day and time of day of the start of a window. -/
theorem toLocal_eq_windowStart_iff : z.toLocal i.second = r.windowStart z w ↔
    z.dateAt i = ⟨(z.dateAt r.stop).number - w.days⟩ ∧
      z.toLocal i.second % daySeconds = z.toLocal r.stop.second % daySeconds := by
  simp only [windowStart, Zone.dateAt, Date.mk.injEq, daySeconds]
  omega

theorem mem_trailing_iff_isTail : (w, q) ∈ r.trailing z ↔ IsTail z r w q := by
  rw [mem_trailing, tail?_eq_some_iff]
  constructor
  · rintro ⟨hdays, hstop, hnano, honly⟩
    have hstart := (honly q.start.second).mpr rfl
    obtain ⟨hdate, htime⟩ := toLocal_eq_windowStart_iff.mp hstart
    refine ⟨hstop, hdate, htime, hnano, fun s hs => (honly s).mp (hs.trans hstart), ?_, hdays⟩
    simp only [spanDays, Date.daysTo, hstop, hdate]
    omega
  · intro h
    have hstart := toLocal_eq_windowStart_iff.mpr ⟨h.date_start, h.timeOfDay_start⟩
    refine ⟨h.days_le, h.stop_eq, h.nano_start, fun s => ⟨fun hs => ?_, fun hs => ?_⟩⟩
    · exact h.unique_start s (hs.trans hstart.symm)
    · rw [hs, hstart]

/-- The trailing windows are some of the catalog, from shorter to longer ones, and each of them is what a
window of the range has to be. Nothing else is a window of the range. -/
theorem trailing_are_tails (z : Zone) (r : Range) :
    (∀ w q, (w, q) ∈ r.trailing z ↔ IsTail z r w q) ∧
      ((r.trailing z).map (·.1)).Sublist Window.catalog ∧
      (r.trailing z).Pairwise fun short long => short.1.days < long.1.days := by
  refine ⟨fun w q => mem_trailing_iff_isTail, ?_, pairwise_days_trailing z r⟩
  rw [map_fst_trailing]
  exact List.filter_sublist

/-! ## Windows that are left out -/

theorem three_le_days (w : Window) : 3 ≤ w.days := by
  cases w <;> decide

/-- A window that fits into a range with bounds does not start outside the calendar, as long as clocks
are not changed around its start. -/
theorem inCalendar_windowStart (hb : r.bounds z = .ok b) (hdays : (w.days : Int) ≤ r.spanDays z)
    (hsteady : z.Steady (r.windowStart z w)) {s : Int} (hs : z.toLocal s = r.windowStart z w) :
    InCalendar s := by
  obtain ⟨-, -, lower, -, hlower, -, -⟩ := bounds_eq_ok_iff.mp hb
  obtain ⟨⟨hmidnight, -⟩, -⟩ := Zone.earliest?_eq_some_iff.mp hlower
  obtain ⟨offset, hoffset⟩ := hsteady
  have hnear := Zone.near_of_toLocal_eq hs
  have hfirst : (z.dateAt r.start).number * daySeconds ≤ r.windowStart z w := by
    simp only [spanDays, Date.daysTo, Zone.dateAt, daySeconds] at hdays
    simp only [windowStart, Zone.dateAt, daySeconds]
    omega
  have hge : lower.second ≤ s := by
    have hlt := (Zone.near_of_toLocal_eq hmidnight).2
    by_cases hfar : lower.second ≤ r.windowStart z w - daySeconds
    · omega
    · -- The midnight has the offset of the start, and an earlier local time.
      rw [Zone.toLocal, hoffset lower.second (by omega) (by omega)] at hmidnight
      rw [Zone.toLocal, hoffset s hnear.1 hnear.2] at hs
      omega
  have hle : s ≤ r.stop.second := by
    have hthree := three_le_days w
    have hbounds := z.offsetAt_bounds r.stop.second
    simp only [windowStart, Zone.toLocal, daySeconds] at hnear hbounds
    omega
  exact ⟨Int.le_trans lower.inCalendar.1 hge, Int.lt_of_le_of_lt hle r.stop.inCalendar.2⟩

/-- Of the windows that are no longer than a range, just those are left out that would start at a local
time which the zone skips, shows more than once or shows outside the calendar. None of them is left out
of a range with bounds if clocks are not changed within a day of where it would start. -/
theorem window_left_out_iff (z : Zone) (r : Range) :
    (∀ w : Window, (w.days : Int) ≤ r.spanDays z → ((∀ q, (w, q) ∉ r.trailing z) ↔
      let start := r.windowStart z w
      z.Skips start ∨ z.Repeats start ∨ z.ShowsOutside start)) ∧
    ∀ b, r.bounds z = .ok b → ∀ w : Window, (w.days : Int) ≤ r.spanDays z →
      z.Steady (r.windowStart z w) → ∃ q, (w, q) ∈ r.trailing z := by
  constructor
  · intro w hdays
    rw [← Zone.not_showsOnce_iff, ← not_exists, exists_mem_trailing_iff]
    simp only [hdays, true_and]
  · intro b hb w hdays hsteady
    have hin : ∀ s, z.toLocal s = r.windowStart z w → InCalendar s := fun s hs =>
      inCalendar_windowStart hb hdays hsteady hs
    exact exists_mem_trailing_iff.mpr ⟨hdays, hsteady.showsOnce hin⟩

/-- A range of four days and a part of a fifth one, which ends at half past two. Three days before, the
clocks showed half past two twice, so that a window that fits into the range is left out. -/
theorem window_left_out_repeated_hour :
    let r : Range := ⟨⟨1792792800, 0, by decide, by decide⟩, ⟨1793151000, 0, by decide, by decide⟩⟩
    r.bounds backAtThree = .ok ⟨1792792800000, 1793228400000⟩ ∧
      (Window.threeDays.days : Int) ≤ r.spanDays backAtThree ∧
      ∀ q, (Window.threeDays, q) ∉ r.trailing backAtThree := by
  refine ⟨rfl, by decide, fun q hq => ?_⟩
  exact List.not_mem_nil hq

end Range

end Daybook
