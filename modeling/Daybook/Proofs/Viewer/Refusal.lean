import Daybook.Proofs.Range.Invalid
import Daybook.Proofs.Viewer.Runs

/-! # Runs with an invalid range

With an invalid range a run ends with the error of the range and prints nothing. If the texts of the
endpoints give no range it makes no call; if the range that they give has no bounds, it has asked for the
active days. -/

namespace Daybook.Viewer

open CommandLine

variable {args : ViewerArgs} {clock : Clock} {e : RangeError}

/-- The text of the first endpoint. It is today's date unless the arguments have another one. -/
def startText (args : ViewerArgs) (clock : Clock) : String :=
  args.start.getD (String.ofList clock.today.text)

/-- The text of the second endpoint. It is that of the first one unless the arguments have another one. -/
def stopText (args : ViewerArgs) (clock : Clock) : String :=
  args.stop.getD (startText args clock)

/-- A run that ends with an error of the range and prints nothing. -/
structure Run.Refuses (run : Run) (e : RangeError) : Prop where
  failure_eq : run.failure = some (.range e)
  complaint_eq : run.complaint = some ("Error: " ++ e.message)
  exitCode_eq : run.exitCode = 1
  output_eq : run.output = ""

theorem Run.refuses_of_eq {run : Run} (hfailure : run.failure = some (.range e))
    (hlines : run.lines = []) : run.Refuses e where
  failure_eq := hfailure
  complaint_eq := by rw [complaint, hfailure]; rfl
  exitCode_eq := by rw [exitCode, hfailure]; rfl
  output_eq := by rw [output, hlines]; rfl

theorem range_eq_error_iff : range args clock = .error e ↔
    Range.BadTexts clock.zone (startText args clock) (stopText args clock) e :=
  Range.ofTexts_eq_error_iff

/-- A run without the option for the configuration refuses its range just if the texts give none or
there are no bounds for it, and fails for no other reason. In the first case it has made no call. In the
second case it has made just one, for the active days, because the range is selected after that. -/
theorem refuses_invalid_range (hargs : args.showConfig = false) (clock : Clock) (net : Http.Network) :
    let run := run args clock net
    (∀ e, Range.BadTexts clock.zone (startText args clock) (stopText args clock) e →
      run.Refuses e ∧ run.calls = []) ∧
    (∀ r e, range args clock = .ok r → Range.Refused clock.zone r e →
      run.Refuses e ∧ run.calls = [.activeDays]) ∧
    (∀ f, run.failure = some f → ∃ e, f = .range e ∧
      (Range.BadTexts clock.zone (startText args clock) (stopText args clock) e ∨
        ∃ r, range args clock = .ok r ∧ Range.Refused clock.zone r e)) ∧
    ∀ net', (∀ call ∈ run.calls, net' ((remoteOf args clock).url call) =
      net ((remoteOf args clock).url call)) → Viewer.run args clock net' = run := by
  intro run
  refine ⟨fun e he => ?_, fun r e hr he => ?_, fun f hf => ?_, fun net' => run_congr⟩
  · have hrun : run = { failure := some (.range e) } :=
      run_of_range_error (range_eq_error_iff.mpr he) net
    rw [hrun]
    exact ⟨Run.refuses_of_eq rfl rfl, rfl⟩
  · have hrun := run_of_range_ok hargs hr net
    rw [showRange_of_error (Range.bounds_eq_error_iff_refused.mpr he)] at hrun
    rw [show run = _ from hrun]
    exact ⟨Run.refuses_of_eq rfl rfl, rfl⟩
  · cases hr : range args clock with
    | error e =>
      rw [show run = _ from run_of_range_error hr net] at hf
      exact ⟨e, (Option.some.inj hf).symm, .inl (range_eq_error_iff.mp hr)⟩
    | ok r =>
      have hrun := run_of_range_ok hargs hr net
      cases hb : r.bounds clock.zone with
      | error e =>
        rw [show run = _ from hrun, showRange_of_error hb] at hf
        exact ⟨e, (Option.some.inj hf).symm,
          .inr ⟨r, rfl, Range.bounds_eq_error_iff_refused.mp hb⟩⟩
      | ok b =>
        -- Whatever the bridge answers now, the run prints it and does not fail.
        rw [show run = _ from hrun, showRange_of_ok hb] at hf
        contradiction

/-- Clocks that are set forward once from midnight to one o'clock. -/
def skippingMidnight : Zone :=
  ⟨⟨-10800, by decide, by decide⟩, [(1541300400, ⟨-7200, by decide, by decide⟩)]⟩

/-- The day without a midnight is refused at once when it is asked for as a day, and after a call when it
is asked for by its noon. -/
theorem refuses_invalid_range_skipped_midnight :
    let clock : Clock := ⟨⟨1541340000, 0, by decide, by decide⟩, skippingMidnight⟩
    let asDay : ViewerArgs := ⟨"http://127.0.0.1:17700", some "2018-11-04", none, false⟩
    let asNoon : ViewerArgs := { asDay with start := some "2018-11-04T12:00:00-02:00" }
    asDay.showConfig = false ∧ asNoon.showConfig = false ∧
      (run asDay clock .unreachable).Refuses (.noMidnight ⟨17839⟩) ∧
      (run asDay clock .unreachable).calls = [] ∧
      (run asNoon clock .unreachable).Refuses (.noMidnight ⟨17839⟩) ∧
      (run asNoon clock .unreachable).calls = [.activeDays] := by
  intro clock asDay asNoon
  have hday : range asDay clock = .error (.noMidnight ⟨17839⟩) := by decide +kernel
  have hnoon : range asNoon clock = .ok (Range.day clock.now) := by decide +kernel
  have hbounds : (Range.day clock.now).bounds clock.zone = .error (.noMidnight ⟨17839⟩) := by
    decide +kernel
  have hargs : asDay.showConfig = false := rfl
  have hargs' : asNoon.showConfig = false := rfl
  have h := (refuses_invalid_range hargs clock .unreachable).1 _ (range_eq_error_iff.mp hday)
  have h' := (refuses_invalid_range hargs' clock .unreachable).2.1 _ _ hnoon
    (Range.bounds_eq_error_iff_refused.mp hbounds)
  exact ⟨hargs, hargs', h.1, h.2, h'.1, h'.2⟩

/-- A reversed range is refused after a call. The bridge answers it, and the run warns that nothing is
recorded on the first day of what is no range. -/
theorem reversed_range_asks_bridge :
    let args : ViewerArgs := ⟨"http://127.0.0.1:17700", some "2026-10-20", some "2026-10-19", false⟩
    let clock : Clock := ⟨⟨0, 0, by decide, by decide⟩, .utc⟩
    let net := Bridge.network ⟨some [], {}⟩
    ViewerArgs.parse ["--from", "2026-10-20", "--to", "2026-10-19"] = .ok args ∧
      (run args clock net).failure = some (.range (.reversed 1792454400000 1792368000000)) ∧
      (run args clock net).calls = [.activeDays] ∧
      (run args clock net).warnings = [.inactive ⟨20746⟩] := by
  decide +kernel

end Daybook.Viewer
