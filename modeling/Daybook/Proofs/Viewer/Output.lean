import Daybook.Proofs.Table.ActiveDays
import Daybook.Proofs.Table.Selected
import Daybook.Proofs.Viewer.Arrival
import Daybook.Proofs.Viewer.Days
import Daybook.Proofs.Viewer.Runs

/-! # What a run prints

A run prints what its source has for the panes of the selected range. The queries for the panes all lie
inside the range, so rows outside it leave no trace in the output. -/

namespace Daybook

open Zone

/-! ## Queries of panes -/

/-- The query of a pane lies inside the range, and can be told to a bridge. -/
theorem Range.exists_bounds_of_part {o : Offset} {r q : Range} {b : Bounds} {p : Pane}
    (hb : r.bounds (fixed o) = .ok b) (hq : r.part (fixed o) p = some q) :
    ∃ c, q.bounds (fixed o) = .ok c ∧ c.Inside b ∧ Remote.Sendable c := by
  obtain ⟨hle, -, hfirst, hlast, hdays⟩ := bounds_fixed_iff.mp hb
  have hnumber := number_dateAt_le (o := o) hle
  have hwhole : ∃ c, r.bounds (fixed o) = .ok c ∧ c.Inside b ∧ Remote.Sendable c :=
    ⟨b, hb, ⟨le_rfl, le_rfl⟩, hdays ▸ sendable_dayBounds hfirst hlast (by omega)⟩
  cases p with
  | summary =>
    obtain rfl := Option.some.inj hq
    exact hwhole
  | timeline =>
    rw [part_timeline] at hq
    split at hq
    · obtain rfl := Option.some.inj hq
      exact hwhole
    · contradiction
  | window w =>
    have hwindow := part_window_eq_some_iff.mp hq
    have hspan := (mem_trailing.mp hwindow).1
    rw [spanDays, Date.daysTo] at hspan
    have hstart : InCalendar (dayStart o (((fixed o).dateAt r.stop).number - w.days)) :=
      inCalendar_dayStart hfirst hlast (by omega) (by omega)
    refine ⟨_, bounds_of_mem_trailing hb hwindow, ⟨?_, ?_⟩, sendable_dayBounds hstart hlast (by omega)⟩
    · simp only [hdays, dayBounds, dayStart, daySeconds]
      omega
    · rw [hdays]
      exact le_rfl

namespace Remote

variable {r : Remote} {b c : Bounds} {t₁ t₂ : Option (List Table.Row)} {config : Config}
  {net₁ net₂ : Http.Network}

/-- Bridges whose tables agree in some bounds are alike to whoever asks for a chart inside them. -/
theorem chart_congr (hnet : r.LeadAlike ⟨t₁, config⟩ ⟨t₂, config⟩ net₁ net₂)
    (hinside : c.Inside b) (hc : Sendable c)
    (htables : t₁.map (Table.selected b) = t₂.map (Table.selected b)) (p : Pane) :
    (r.source net₁).chart c p = (r.source net₂).chart c p := by
  have hrecords : (⟨t₁, config⟩ : Bridge).outcome (r.queryText (.records c)) .select =
      (⟨t₂, config⟩ : Bridge).outcome (r.queryText (.records c)) .select := by
    simp only [queryText, Bridge.outcome, withBounds_boundsText hc.lower hc.upper]
    rw [Table.bind_eq_of_selected_eq (Table.records?_selected hinside) htables]
  have husages : (⟨t₁, config⟩ : Bridge).outcome (r.queryText (.usages c)) .durationByExe =
      (⟨t₂, config⟩ : Bridge).outcome (r.queryText (.usages c)) .durationByExe := by
    simp only [queryText, Bridge.outcome, withBounds_boundsText hc.lower hc.upper]
    rw [Table.bind_eq_of_selected_eq (Table.usages?_selected hinside) htables]
  have hselect := ask_congr (hnet (.records c) hrecords) (.list Record.decode)
  have hduration := ask_congr (hnet (.usages c) husages) (.list Usage.decode)
  cases p <;> simp only [Source.chart, source, hselect, hduration]

/-- So they are to a dashboard that selects a range with these bounds. -/
theorem shown_congr (hnet : r.LeadAlike ⟨t₁, config⟩ ⟨t₂, config⟩ net₁ net₂) {o : Offset}
    {range : Range} (hb : range.bounds (fixed o) = .ok b)
    (htables : t₁.map (Table.selected b) = t₂.map (Table.selected b)) (p : Pane) :
    (r.source net₁).shown (fixed o) range p = (r.source net₂).shown (fixed o) range p := by
  rw [Source.shown, Source.shown]
  cases hpart : range.part (fixed o) p with
  | none => rfl
  | some q =>
    obtain ⟨c, hc, hinside, hsend⟩ := Range.exists_bounds_of_part hb hpart
    simp only [Source.reply, hc, chart_congr hnet hinside hsend htables]

end Remote

/-! ## The end of a run -/

/-- Once a range was selected and all its fetches have been answered, the views show what the source
has. -/
theorem Session.answerAll_select {s : Session} {z : Zone} {selection : Option Range} {r : Range}
    {b : Bounds} (source : Source) (hc : s.Consistent z) (hp : s.Pointed z selection)
    (hnone : s.requests = []) (hb : r.bounds z = .ok b) :
    let t := Viewer.answerAll source (s.select r).1.run
    t.Pointed z (some r) ∧ ∀ p, (t.view p).state = source.shown z r p := by
  intro t
  obtain ⟨completions, hall, heq⟩ := exists_settling source (s.select r).1
  have htp : t.Pointed z (some r) := by
    have h := (hp.select r).stepAll completions
    rwa [heq, foldl_selection_of_isCompletion hall, Event.selection_select hb] at h
  have htc : t.Consistent z := by
    have h := stepAll_induction (P := Consistent z) (fun _ e h => h.step e) (hc.select r) completions
    rwa [heq] at h
  have hnew : (s.select r).1.AnsweredBy source := by
    intro q hq
    rw [requests_select, hnone] at hq
    contradiction
  exact ⟨htp, state_of_settled htc htp (settled_answerAll source (issued_run _))
    hnew.run.answerAll⟩

namespace Viewer

/-- The lines for a dashboard depend on the selection and on what the views show. -/
theorem report_congr {s t : Session} {z : Zone} {selection : Option Range}
    (hs : s.Pointed z selection) (ht : t.Pointed z selection)
    (hstate : ∀ p, (s.view p).state = (t.view p).state) :
    report s.dashboard = report t.dashboard := by
  have hfooter : s.dashboard.footer = t.dashboard.footer := by
    rw [Dashboard.footer, Dashboard.footer, hs.zone_eq, hs.range_eq, ht.zone_eq, ht.range_eq]
  have hpie : ∀ p, pieOf s.dashboard p = pieOf t.dashboard p := fun p =>
    congrArg (ViewState.map Chart.breakdown) (hstate p)
  have hbars : (s.dashboard.views.get .timeline).state = (t.dashboard.views.get .timeline).state :=
    hstate .timeline
  have hwindows : s.dashboard.shownWindows.map (·.1) = t.dashboard.shownWindows.map (·.1) :=
    hs.map_shownWindows.trans ht.map_shownWindows.symm
  have hlines : ∀ line : Window → List String, (s.dashboard.shownWindows.flatMap fun x => line x.1) =
      t.dashboard.shownWindows.flatMap fun x => line x.1 := by
    intro line
    rw [← List.flatMap_map, hwindows, List.flatMap_map]
  simp only [report, hfooter, hpie, hbars, hs.zone_eq, ht.zone_eq, hs.layout_eq, ht.layout_eq]
  rw [hlines fun w => Report.pieLines w.label (pieOf t.dashboard (.window w))]

/-- A run that selects a range with bounds prints what its source has for the range. The active days
have no part in it. -/
theorem exists_session_of_showRange {range : Range} {b : Bounds} (clock : Clock) (remote : Remote)
    (source : Source) (hb : range.bounds clock.zone = .ok b) :
    ∃ t : Session, (showRange clock remote source range).lines = report t.dashboard ∧
      t.Pointed clock.zone (some range) ∧
      ∀ p, (t.view p).state = source.shown clock.zone range p := by
  have hconsistent : (started clock source).Consistent clock.zone :=
    Session.consistent_new clock.zone _
  have hpointed : (started clock source).Pointed clock.zone none := Session.pointed_new clock.zone _
  exact ⟨_, congrArg Run.lines (showRange_of_ok hb remote source),
    Session.answerAll_select source hconsistent hpointed rfl hb⟩

variable {args : CommandLine.ViewerArgs}

/-- Trailing slashes aside, a source asks on the address that it was given. -/
theorem mem_of_mem_base {url : String} {offsetMinutes : Int} {c : Char}
    (h : c ∈ (Remote.ofUrl url offsetMinutes).base.toList) : c ∈ url.toList := by
  rw [Remote.ofUrl, String.toList_ofList, List.mem_reverse] at h
  exact List.mem_reverse.mp ((List.dropWhile_sublist _).subset h)

/-- Bridges whose tables agree in the bounds of the range make for the same output, if calls that they
answer alike have one outcome on the networks on which they are. -/
theorem output_congr {now : Instant} {o : Offset} {r : Range} {b : Bounds}
    (hr : range args ⟨now, fixed o⟩ = .ok r) (hb : r.bounds (fixed o) = .ok b)
    {t₁ t₂ : Option (List Table.Row)}
    (htables : t₁.map (Table.selected b) = t₂.map (Table.selected b)) {config : Config}
    {net₁ net₂ : Http.Network}
    (hnet : (remoteOf args ⟨now, fixed o⟩).LeadAlike ⟨t₁, config⟩ ⟨t₂, config⟩ net₁ net₂) :
    (run args ⟨now, fixed o⟩ net₁).output = (run args ⟨now, fixed o⟩ net₂).output := by
  let clock : Clock := ⟨now, fixed o⟩
  let remote := remoteOf args clock
  cases hargs : args.showConfig with
  | true =>
    have hconfig : (remote.source net₁).config = (remote.source net₂).config :=
      Remote.ask_congr (hnet .config rfl) Config.decode
    rw [run_of_showConfig hargs hr, run_of_showConfig hargs hr, showConfig, showConfig, hconfig]
  | false =>
    obtain ⟨s₁, hlines₁, hs₁, hstate₁⟩ :=
      exists_session_of_showRange clock remote (remote.source net₁) hb
    obtain ⟨s₂, hlines₂, hs₂, hstate₂⟩ :=
      exists_session_of_showRange clock remote (remote.source net₂) hb
    have hstate : ∀ p, (s₁.view p).state = (s₂.view p).state := by
      intro p
      rw [hstate₁, hstate₂]
      exact Remote.shown_congr hnet hb htables p
    rw [run_of_range_ok hargs hr, run_of_range_ok hargs hr, Run.output, Run.output, hlines₁,
      hlines₂, report_congr hs₁ hs₂ hstate]

/-- Rows outside the selected days do not show where every address leads to a bridge, be it a name or an
address without a port. -/
theorem output_eq_of_selected_eq_network (hurl : ∀ c ∈ args.bridgeUrl.toList, c ≠ '?' ∧ c ≠ '#')
    (now : Instant) (o : Offset) {r : Range} {b : Bounds}
    (hr : range args ⟨now, fixed o⟩ = .ok r) (hb : r.bounds (fixed o) = .ok b)
    {t₁ t₂ : Option (List Table.Row)}
    (htables : t₁.map (Table.selected b) = t₂.map (Table.selected b)) (config : Config) :
    (run args ⟨now, fixed o⟩ (Bridge.network ⟨t₁, config⟩)).output =
      (run args ⟨now, fixed o⟩ (Bridge.network ⟨t₂, config⟩)).output := by
  apply output_congr hr hb htables
  apply Remote.leadAlike_network
  intro c hc
  exact hurl c (mem_of_mem_base hc)

/-- Rows outside the selected days do not show in the output, in a zone with one offset: bridges with
one configuration whose tables agree in the bounds of the range make the viewer print the same, whether
they find something or fail. The address of the bridge has no query and no fragment of its own. -/
theorem output_eq_of_selected_eq (hurl : ∀ c ∈ args.bridgeUrl.toList, c ≠ '?' ∧ c ≠ '#')
    (now : Instant) (o : Offset) {r : Range} {b : Bounds}
    (hr : range args ⟨now, fixed o⟩ = .ok r) (hb : r.bounds (fixed o) = .ok b)
    {t₁ t₂ : Option (List Table.Row)}
    (htables : t₁.map (Table.selected b) = t₂.map (Table.selected b))
    (config : Config) (socket : Net.Socket) :
    (run args ⟨now, fixed o⟩ (Bridge.networkAt ⟨t₁, config⟩ socket)).output =
      (run args ⟨now, fixed o⟩ (Bridge.networkAt ⟨t₂, config⟩ socket)).output := by
  apply output_congr hr hb htables
  apply Remote.leadAlike_networkAt
  intro c hc
  exact hurl c (mem_of_mem_base hc)

/-- Two days of October, asked of the bridge at an address. -/
def twoDays (url : String) : CommandLine.ViewerArgs :=
  ⟨url, some "2026-10-19", some "2026-10-20", false⟩

/-- The socket of a bridge that was not told another one. -/
def usualSocket : Net.Socket :=
  .v4 ⟨127, 0, 0, 1⟩ 17700

theorem output_eq_of_selected_eq_more_rows :
    let args := twoDays "http://127.0.0.1:17700/"
    let now : Instant := ⟨0, 0, by decide, by decide⟩
    let r : Range := ⟨⟨1792368000, 0, by decide, by decide⟩, ⟨1792454400, 0, by decide, by decide⟩⟩
    let b : Bounds := ⟨1792368000000, 1792540800000⟩
    let few := Table.rowsAt [1792540799999, 1792368000000]
    let more := Table.rowsAt [1792540799999, 1792540800000, 1792368000000, 0]
    (∀ c ∈ args.bridgeUrl.toList, c ≠ '?' ∧ c ≠ '#') ∧
    range args ⟨now, fixed .utc⟩ = .ok r ∧ r.bounds (fixed .utc) = .ok b ∧
    (some few).map (Table.selected b) = (some more).map (Table.selected b) ∧
    (run args ⟨now, fixed .utc⟩ (Bridge.networkAt ⟨some few, {}⟩ usualSocket)).output =
      (run args ⟨now, fixed .utc⟩ (Bridge.networkAt ⟨some more, {}⟩ usualSocket)).output := by
  intro args now r b few more
  have hurl : ∀ c ∈ args.bridgeUrl.toList, c ≠ '?' ∧ c ≠ '#' := by simp [args, twoDays]
  have hr : range args ⟨now, fixed .utc⟩ = .ok r := by decide +kernel
  have hb : r.bounds (fixed .utc) = .ok b := by decide +kernel
  have htables : (some few).map (Table.selected b) = (some more).map (Table.selected b) := by
    decide +kernel
  exact ⟨hurl, hr, hb, htables,
    output_eq_of_selected_eq hurl now .utc hr hb htables {} usualSocket⟩

/-- An address with a query of its own leads all calls to one route. There the active days answer for
the usages, and so a row of 1970 shows in October 2026. -/
theorem output_shows_outside_row :
    let args := twoDays "http://127.0.0.1:17700/active_dates?x="
    let now : Instant := ⟨0, 0, by decide, by decide⟩
    let r : Range := ⟨⟨1792368000, 0, by decide, by decide⟩, ⟨1792454400, 0, by decide, by decide⟩⟩
    let b : Bounds := ⟨1792368000000, 1792540800000⟩
    range args ⟨now, fixed .utc⟩ = .ok r ∧ r.bounds (fixed .utc) = .ok b ∧
    (some (Table.rowsAt [])).map (Table.selected b) =
      (some (Table.rowsAt [0])).map (Table.selected b) ∧
    (run args ⟨now, fixed .utc⟩ (Bridge.networkAt ⟨some (Table.rowsAt []), {}⟩ usualSocket)).output ≠
      (run args ⟨now, fixed .utc⟩ (Bridge.networkAt ⟨some (Table.rowsAt [0]), {}⟩ usualSocket)).output :=
  ⟨rfl, rfl, by decide +kernel, by decide +kernel⟩

end Viewer

end Daybook
