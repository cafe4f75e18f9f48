import Daybook.Proofs.Range.FixedZone
import Daybook.Range.Trailing

/-! # Trailing windows

The windows of a range are those that are no longer than it. In a zone with one offset the bounds of
a window are the days that its length counts back, and the last day itself. There every window that
fits has a start, and each one lies inside the next. -/

namespace Daybook

/-- The milliseconds of the bounds are some of those of the other ones, but not all of them. -/
def Bounds.StrictlyInside (c d : Bounds) : Prop :=
  (∀ ms, c.lower ≤ ms → ms < c.upper → d.lower ≤ ms ∧ ms < d.upper) ∧
    ∃ ms, d.lower ≤ ms ∧ ms < d.upper ∧ ¬(c.lower ≤ ms ∧ ms < c.upper)

namespace Range

open Zone

variable {z : Zone} {o : Offset} {r q : Range} {b : Bounds} {w : Window}

/-- A single day has no trailing windows. -/
theorem trailing_of_spanDays_eq_zero (h : r.spanDays z = 0) : r.trailing z = [] := by
  have hnone : Window.catalog.filter (fun w => (w.days : Int) ≤ r.spanDays z) = [] := by
    rw [h]
    rfl
  simp [trailing, hnone]

/-- A window occurs once among the trailing windows at most. -/
theorem mem_trailing :
    (w, q) ∈ r.trailing z ↔ (w.days : Int) ≤ r.spanDays z ∧ r.tail? z w = some q := by
  have hall : w ∈ Window.catalog := by cases w <;> decide
  simp [trailing, hall]

/-- The trailing windows are those of the catalog that fit and have a start, in its order. -/
theorem map_fst_trailing (z : Zone) (r : Range) :
    (r.trailing z).map (·.1) =
      Window.catalog.filter fun w => (w.days : Int) ≤ r.spanDays z ∧ (r.tail? z w).isSome := by
  have hmap : ∀ windows : List Window,
      (windows.filterMap fun w => (r.tail? z w).map (w, ·)).map (·.1) =
        windows.filter fun w => (r.tail? z w).isSome := by
    intro windows
    induction windows with
    | nil => rfl
    | cons w windows ih => cases htail : r.tail? z w <;> simp [htail, ih]
  rw [trailing, hmap, List.filter_filter]
  simp only [Bool.decide_and, Bool.and_comm, Bool.decide_eq_true]

theorem tail?_fixed_iff : r.tail? (fixed o) w = some q ↔
    q.stop = r.stop ∧ q.start.second = r.stop.second - w.days * daySeconds ∧
      q.start.nano = r.stop.nano := by
  obtain ⟨start, stop⟩ := q
  simp only [tail?, daysBefore?_fixed, Option.map_eq_some_iff, Range.mk.injEq,
    Instant.of?_eq_some_iff]
  constructor
  · rintro ⟨i, ⟨hs, hn⟩, rfl, rfl⟩
    exact ⟨rfl, hs, hn⟩
  · rintro ⟨rfl, hs, hn⟩
    exact ⟨start, ⟨hs, hn⟩, rfl, rfl⟩

/-- A window has as many whole days before the last one as its length says. -/
theorem bounds_of_mem_trailing (hb : r.bounds (fixed o) = .ok b) (hq : (w, q) ∈ r.trailing (fixed o)) :
    q.bounds (fixed o) = .ok (dayBounds o (((fixed o).dateAt r.stop).number - w.days)
      ((fixed o).dateAt r.stop).number) := by
  obtain ⟨hspan, htail⟩ := mem_trailing.mp hq
  obtain ⟨hstop, hsecond, hnano⟩ := tail?_fixed_iff.mp htail
  obtain ⟨-, hlast, hfirst, hnext, -⟩ := bounds_fixed_iff.mp hb
  have hdate : ((fixed o).dateAt q.start).number = ((fixed o).dateAt r.stop).number - w.days := by
    simp only [dateAt_fixed, hsecond, daySeconds]
    omega
  refine bounds_fixed_iff.mpr ⟨?_, ?_, ?_, ?_, ?_⟩
  · rw [hstop, Instant.le_def, hsecond, hnano, daySeconds]
    omega
  · rwa [hstop]
  · rw [spanDays, Date.daysTo] at hspan
    rw [hdate]
    exact inCalendar_dayStart hfirst hnext (by omega) (by omega)
  · rwa [hstop]
  · rw [hdate, hstop]

/-! ## Windows inside each other -/

/-- Going back as many days as lie between the first day and the last one does not leave the
calendar. -/
theorem exists_tail?_fixed (hb : r.bounds (fixed o) = .ok b)
    (hw : (w.days : Int) ≤ r.spanDays (fixed o)) : ∃ q, r.tail? (fixed o) w = some q := by
  obtain ⟨-, -, hfirst, -, -⟩ := bounds_fixed_iff.mp hb
  have hstop := r.stop.inCalendar
  have hin : InCalendar (r.stop.second - w.days * daySeconds) := by
    simp only [spanDays, Date.daysTo, dateAt_fixed, daySeconds] at hw
    simp only [InCalendar, dayStart, dateAt_fixed, daySeconds] at hfirst hstop ⊢
    omega
  exact ⟨⟨⟨_, r.stop.nano, hin, r.stop.nano_lt⟩, r.stop⟩, tail?_fixed_iff.mpr ⟨rfl, rfl, rfl⟩⟩

/-- The longer of two windows starts earlier. -/
theorem pairwise_days_trailing (z : Zone) (r : Range) :
    (r.trailing z).Pairwise fun short long => short.1.days < long.1.days := by
  have hcatalog : Window.catalog.Pairwise fun v w => v.days < w.days := by decide
  rw [← List.pairwise_map (f := Prod.fst) (R := fun v w : Window => v.days < w.days),
    map_fst_trailing]
  exact hcatalog.filter _

/-- Of two stretches of days that end together the one with more days holds the other one. -/
theorem strictlyInside_dayBounds {first first' last : Int} (hlt : first' < first)
    (hle : first ≤ last) : (dayBounds o first last).StrictlyInside (dayBounds o first' last) := by
  simp only [Bounds.StrictlyInside, dayBounds, dayStart, daySeconds]
  refine ⟨fun ms hge hlt => ⟨by omega, hlt⟩, (first' * 86400 - o.seconds) * 1000, ?_, ?_, ?_⟩ <;>
    omega

/-- In a zone with one offset a range with bounds has a trailing window for every length of the catalog
that is no longer than it, shortest first. Each window has bounds: they end where those of the range
end, start no earlier and are as many days wide as the window has, and one more. So each window lies
strictly inside every longer one. -/
theorem trailing_nested (hb : r.bounds (fixed o) = .ok b) :
    (r.trailing (fixed o)).map (·.1) =
      Window.catalog.filter (fun w => (w.days : Int) ≤ r.spanDays (fixed o)) ∧
    (r.trailing (fixed o)).Pairwise (fun short long => short.1.days < long.1.days) ∧
    (∀ w q, (w, q) ∈ r.trailing (fixed o) → q.stop = r.stop ∧ ∃ c, q.bounds (fixed o) = .ok c ∧
      c.upper = b.upper ∧ b.lower ≤ c.lower ∧ c.upper - c.lower = (w.days + 1) * dayMillis) ∧
    (r.trailing (fixed o)).Pairwise fun short long => ∃ c d, short.2.bounds (fixed o) = .ok c ∧
      long.2.bounds (fixed o) = .ok d ∧ c.StrictlyInside d := by
  have hdays := pairwise_days_trailing (fixed o) r
  refine ⟨?_, hdays, ?_, ?_⟩
  · rw [map_fst_trailing]
    apply List.filter_congr
    intro w _
    rw [decide_eq_decide, and_iff_left_iff_imp, Option.isSome_iff_exists]
    exact exists_tail?_fixed hb
  · intro w q hq
    obtain ⟨hspan, htail⟩ := mem_trailing.mp hq
    refine ⟨(tail?_fixed_iff.mp htail).1, _, bounds_of_mem_trailing hb hq, ?_⟩
    obtain ⟨-, -, -, -, rfl⟩ := bounds_fixed_iff.mp hb
    simp only [spanDays, Date.daysTo] at hspan
    refine ⟨rfl, ?_, ?_⟩ <;> simp only [dayBounds, dayStart, daySeconds, dayMillis] <;> omega
  · refine hdays.imp_of_mem ?_
    intro short long hshort hlong hlt
    refine ⟨_, _, bounds_of_mem_trailing hb hshort, bounds_of_mem_trailing hb hlong, ?_⟩
    exact strictlyInside_dayBounds (by omega) (by omega)

/-- The range goes from the last second of a day to the first one of the day before the last of the
calendar, on the westernmost clocks. -/
theorem trailing_nested_last_days :
    let o : Offset := ⟨-86399, by decide, by decide⟩
    let r : Range :=
      ⟨⟨(Date.lastNumber - 8) * 86400 + 86398, 0, by decide, by decide⟩,
        ⟨Date.lastNumber * 86400 - 1, 1500000000, by decide, by decide⟩⟩
    let b : Bounds := ⟨8210266099199000, 8210266876799000⟩
    r.bounds (fixed o) = .ok b ∧
      (r.trailing (fixed o)).map (·.1) = [.threeDays, .week] ∧
      ∀ w q, (w, q) ∈ r.trailing (fixed o) → ∃ c, q.bounds (fixed o) = .ok c ∧
        c.upper = b.upper ∧ b.lower ≤ c.lower ∧ c.upper - c.lower = (w.days + 1) * dayMillis := by
  intro o r b
  have hb : r.bounds (fixed o) = .ok b := bounds_fixed_iff.mpr (by decide +kernel)
  obtain ⟨hwindows, -, hbounds, -⟩ := trailing_nested hb
  exact ⟨hb, hwindows.trans (by decide +kernel), fun w q hq => (hbounds w q hq).2⟩

end Range

end Daybook
