import Daybook.Proofs.Calendar.Civil
import Daybook.Proofs.Range.Invalid
import Daybook.Proofs.Viewer.Loads
import Daybook.Proofs.Viewer.Refusal

/-! # The days offered before any are known

As long as every request for the active days fails, every start of a day can be picked, and so can every
day that has one. A day without a midnight is not offered even then. -/

namespace Daybook.ActiveDays

variable {requests : List Request} {l : Log} {a : ActiveDays} {z : Zone} {d : Date}

/-! ## Runs without an answer -/

/-- No request so far has succeeded. -/
def Log.AllFailed (l : Log) : Prop :=
  ∀ r ∈ l.requests, ∃ e, r.answer = .error e

theorem Request.brought?_eq_none_iff {r : Request} : r.brought? = none ↔ ∃ e, r.answer = .error e := by
  rw [brought?]
  cases r.answer <;> simp

theorem lastBrought?_eq_none_iff :
    lastBrought? requests = none ↔ ∀ r ∈ requests, ∃ e, r.answer = .error e := by
  simp only [lastBrought?, List.getLast?_eq_none_iff, List.filterMap_eq_nil_iff,
    Request.brought?_eq_none_iff]

/-- Nothing is known exactly as long as no request has succeeded. -/
theorem Log.Sound.loaded_eq_none_iff (h : l.Sound) : l.days.loaded = none ↔ l.AllFailed := by
  rw [h]
  exact lastBrought?_eq_none_iff

/-! ## Days -/

theorem isSelectable_of_loaded_eq_none (h : a.loaded = none) (startMs : Int) :
    a.isSelectable startMs := by
  rw [isSelectable, h]

theorem isDaySelectable_iff_of_loaded_eq_none (h : a.loaded = none) :
    a.isDaySelectable z d ↔ ¬z.LacksMidnight d := by
  rw [← Zone.midnight?_eq_none_iff, isDaySelectable]
  cases z.midnight? d with
  | none => simp
  | some i => simp [isSelectable_of_loaded_eq_none h]

/-- After any run of calls whose requests have all failed nothing is known, and every start of a day can be
picked. A calendar day can be picked exactly if the clocks of the zone show its midnight, and do not show
it outside the calendar. -/
theorem offers_days_with_midnight {loads : List Load} (h : (after loads).AllFailed) :
    ¬(after loads).days.isLoaded ∧ (∀ startMs, (after loads).days.isSelectable startMs) ∧
    ∀ z d, (after loads).days.isDaySelectable z d ↔ ¬z.LacksMidnight d := by
  have hnone := (sound_after loads).loaded_eq_none_iff.mpr h
  refine ⟨?_, isSelectable_of_loaded_eq_none hnone, fun z d =>
    isDaySelectable_iff_of_loaded_eq_none hnone⟩
  rw [isLoaded, hnone]
  exact Bool.false_ne_true

/-- Two calls that both fail. -/
def failedLoads : List Load :=
  [.ensure ⟨17838⟩ (.error (.transport "connection refused")),
    .refresh ⟨17838⟩ (.error (.refused "db_error"))]

theorem allFailed_failedLoads : (after failedLoads).AllFailed := by
  intro r hr
  have hrequests : (after failedLoads).requests =
      [⟨⟨17838⟩, .error (.transport "connection refused")⟩, ⟨⟨17838⟩, .error (.refused "db_error")⟩] :=
    rfl
  rw [hrequests, List.mem_pair] at hr
  rcases hr with rfl | rfl
  · exact ⟨_, rfl⟩
  · exact ⟨_, rfl⟩

/-- The first day of the calendar is offered for UTC, and not an hour east of it, where it has begun before
the calendar. -/
theorem offers_days_with_midnight_first_day :
    let east : Zone := .fixed ⟨3600, by decide, by decide⟩
    (after failedLoads).AllFailed ∧ (after failedLoads).days.isDaySelectable .utc .first ∧
      ¬(after failedLoads).days.isDaySelectable east .first := by
  intro east
  obtain ⟨-, -, hday⟩ := offers_days_with_midnight allFailed_failedLoads
  refine ⟨allFailed_failedLoads, (hday .utc .first).mpr ?_, fun h => (hday east .first).mp h ?_⟩
  · rw [← Zone.midnight?_eq_none_iff]
    decide
  · rw [← Zone.midnight?_eq_none_iff]
    decide

/-- The day on which clocks skip the hour after midnight is not offered before any days are known. -/
theorem skipped_midnight_not_offered :
    (after failedLoads).AllFailed ∧ Date.InCalendar ⟨17839⟩ ∧
      ¬(after failedLoads).days.isDaySelectable Viewer.skippingMidnight ⟨17839⟩ :=
  ⟨allFailed_failedLoads, by decide, by decide⟩

end Daybook.ActiveDays
