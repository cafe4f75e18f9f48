import Daybook.Proofs.Dashboard.Selection
import Daybook.Viewer.Program

/-! # Runs of the viewer

A run reads its range, and then shows the configuration or selects the range in a new session. It sees of
the network only the answers to its calls. -/

namespace Daybook

namespace Viewer

open CommandLine

variable {args : ViewerArgs} {clock : Clock} {r : Range} {b : Bounds} {e : RangeError}

/-! ## What a run does -/

/-- The session in which a range is selected. The active days have been asked for. -/
def started (clock : Clock) (source : Source) : Session :=
  { dashboard :=
    { zone := clock.zone, days := (ActiveDays.ensure {} clock.today source.activeDays).1 } }

/-- What there is to say about the first day of the range, before it is selected. -/
def warnings (clock : Clock) (remote : Remote) (source : Source) (r : Range) : List Warning :=
  let (days, result, _) := ActiveDays.ensure {} clock.today source.activeDays
  warningsFor days remote.zone (clock.zone.dateAt r.start) result

theorem showRange_of_error (h : r.bounds clock.zone = .error e) (remote : Remote) (source : Source) :
    showRange clock remote source r = {
      failure := some (.range e)
      warnings := warnings clock remote source r
      calls := [.activeDays] } := by
  have hselect : (started clock source).select r = (started clock source, .error e) :=
    Session.select_of_error h
  simp only [started] at hselect
  simp only [showRange, warnings, hselect]

theorem showRange_of_ok (h : r.bounds clock.zone = .ok b) (remote : Remote) (source : Source) :
    let session := ((started clock source).select r).1.run
    showRange clock remote source r = {
      lines := report (answerAll source session).dashboard
      warnings := warnings clock remote source r
      calls := .activeDays :: session.requests.map callOf } := by
  obtain ⟨session, hselect⟩ : ∃ session, (started clock source).select r = (session, .ok ()) :=
    ⟨_, Session.select_of_ok h⟩
  rw [hselect]
  simp only [started] at hselect
  simp only [showRange, warnings, hselect]

/-- The remote that a run asks. -/
def remoteOf (args : ViewerArgs) (clock : Clock) : Remote :=
  .ofUrl args.bridgeUrl clock.offsetMinutes

theorem run_of_range_error (h : range args clock = .error e) (net : Http.Network) :
    run args clock net = { failure := some (.range e) } := by
  simp only [run, h]

theorem run_of_showConfig (hargs : args.showConfig = true) (h : range args clock = .ok r)
    (net : Http.Network) :
    run args clock net = showConfig ((remoteOf args clock).source net) := by
  simp only [run, h, hargs, remoteOf]
  rfl

theorem run_of_range_ok (hargs : args.showConfig = false) (h : range args clock = .ok r)
    (net : Http.Network) : run args clock net =
      showRange clock (remoteOf args clock) ((remoteOf args clock).source net) r := by
  simp only [run, h, hargs, remoteOf]
  rfl

end Viewer

/-! ## What a run sees of the network -/

namespace Remote

variable {r : Remote} {net net' : Http.Network} {α : Type}

theorem ask_congr {call : Call} (h : net (r.url call) = net' (r.url call))
    (d : Json.Decoder RowError α) : r.ask net call d = r.ask net' call d := by
  rw [ask, ask, h]

/-- What a request of a pane brings depends on the answer to its call. -/
theorem chart_congr_of_callOf {q : PaneRequest}
    (h : net (r.url (Viewer.callOf q)) = net' (r.url (Viewer.callOf q))) :
    (r.source net).chart q.bounds q.fetch.pane = (r.source net').chart q.bounds q.fetch.pane := by
  obtain ⟨⟨pane, range, generation⟩, bounds, reply⟩ := q
  cases pane <;> simp only [Source.chart, source, Viewer.callOf] at h ⊢ <;> rw [ask_congr h]

end Remote

namespace Viewer

open CommandLine

variable {args : ViewerArgs} {clock : Clock} {remote : Remote} {net net' : Http.Network} {r : Range}

theorem answerAll_congr {source source' : Source} {s : Session}
    (h : ∀ q ∈ s.requests, source.chart q.bounds q.fetch.pane = source'.chart q.bounds q.fetch.pane) :
    answerAll source s = answerAll source' s := by
  have hmem : ∀ id q, (id, q) ∈ s.waiting → q ∈ s.requests := by
    intro id q hq
    obtain ⟨⟨q', id'⟩, hfound, heq⟩ := List.mem_map.mp hq
    cases heq
    exact List.fst_mem_of_mem_zipIdx (List.mem_filter.mp hfound).1
  rw [answerAll, answerAll]
  congr 1
  refine List.foldl_ext _ _ _ fun t ⟨id, q⟩ hq => ?_
  simp only [h q (hmem id q hq)]

theorem showRange_congr (h : ∀ call ∈ (showRange clock remote (remote.source net) r).calls,
      net' (remote.url call) = net (remote.url call)) :
    showRange clock remote (remote.source net') r = showRange clock remote (remote.source net) r := by
  have hdays : .activeDays ∈ (showRange clock remote (remote.source net) r).calls →
      (remote.source net').activeDays = (remote.source net).activeDays := by
    intro hmem
    simp only [Remote.source, Remote.ask_congr (h _ hmem)]
  cases hb : r.bounds clock.zone with
  | error e =>
    rw [showRange_of_error hb] at hdays
    rw [showRange_of_error hb, showRange_of_error hb, warnings, warnings,
      hdays List.mem_cons_self]
  | ok b =>
    rw [showRange_of_ok hb] at h hdays
    have hstarted : started clock (remote.source net') = started clock (remote.source net) := by
      rw [started, started, hdays List.mem_cons_self]
    have hanswers : answerAll (remote.source net') ((started clock (remote.source net)).select r).1.run =
        answerAll (remote.source net) ((started clock (remote.source net)).select r).1.run := by
      refine answerAll_congr fun q hq => Remote.chart_congr_of_callOf ?_
      exact h _ (List.mem_cons_of_mem _ (List.mem_map_of_mem hq))
    rw [showRange_of_ok hb, showRange_of_ok hb, warnings, warnings, hstarted, hanswers,
      hdays List.mem_cons_self]

theorem showConfig_congr (h : ∀ call ∈ (showConfig (remote.source net)).calls,
      net' (remote.url call) = net (remote.url call)) :
    showConfig (remote.source net') = showConfig (remote.source net) := by
  have hcall : .config ∈ (showConfig (remote.source net)).calls := by
    rw [showConfig]
    split <;> exact List.mem_cons_self
  have hconfig : (remote.source net').config = (remote.source net).config := by
    simp only [Remote.source, Remote.ask_congr (h _ hcall)]
  rw [showConfig, showConfig, hconfig]

/-- A run makes no other requests than its calls: networks on which they have the same answers make for
the same run. -/
theorem run_congr (h : ∀ call ∈ (run args clock net).calls,
      net' ((remoteOf args clock).url call) = net ((remoteOf args clock).url call)) :
    run args clock net' = run args clock net := by
  cases hr : range args clock with
  | error e => rw [run_of_range_error hr, run_of_range_error hr]
  | ok r =>
    cases hargs : args.showConfig with
    | false =>
      rw [run_of_range_ok hargs hr] at h ⊢
      rw [run_of_range_ok hargs hr]
      exact showRange_congr h
    | true =>
      rw [run_of_showConfig hargs hr] at h ⊢
      rw [run_of_showConfig hargs hr]
      exact showConfig_congr h

end Viewer

end Daybook
