import Daybook.Proofs.Dashboard.History
import Daybook.Proofs.Table.Records
import Daybook.Proofs.Viewer.Remote

/-! # What the dashboard shows of the table

Between the rows of the table and the panes of a dashboard lie the query, its answer on the wire and
the grouping by name. In a zone with one offset a pane shows just the rows of its local days. -/

namespace Daybook

open Zone

/-! ## Records by local days -/

/-- The local day on which a record starts, if its start lies in the calendar. -/
def Record.day? (z : Zone) (r : Record) : Option Date :=
  (Instant.ofMillis? r.start.toInt).map z.dateAt

/-- The records that start on the local days from `first` to `last`. -/
def onDays (z : Zone) (first last : Int) (records : List Record) : List Record :=
  records.filter fun r => (r.day? z).any fun d => first ≤ d.number ∧ d.number ≤ last

/-- The length of a record under the name of its executable. -/
def Record.named (r : Record) : String × Int :=
  (Path.lastSegment r.path, r.stop.toInt - r.start.toInt)

/-- No length and no running sum of the lengths of one path leaves 64 bits, whatever the bounds. -/
def LengthsFit (records : List Record) : Prop :=
  ∀ b, Table.SumsFit ((records.filter (·.startsIn b)).map Record.entry)

theorem lengthsFit_of_natAbs_sum_lt {records : List Record}
    (h : ((records.map Record.entry).map fun e => e.2.natAbs).sum < limit64) : LengthsFit records :=
  fun _ => Table.sumsFit_of_sublist (List.filter_sublist.map _) h

/-- A bridge with the records in its table. -/
def Bridge.serving (records : List Record) (config : Config) : Bridge :=
  ⟨some (records.map Record.toRow), config⟩

/-- The bar has the name, the title, the times and the color of a record. -/
structure Bar.Shows (bar : Bar) (r : Record) : Prop where
  name : bar.name = Path.lastSegment r.path
  title : bar.title = r.title
  start : bar.start = r.start
  stop : bar.stop = r.stop
  color : bar.color = Palette.colorOf (Path.lastSegment r.path)

variable {o : Offset} {first last : Int} {records : List Record}

/-- The bounds of local days select the records that start on them. -/
theorem filter_startsIn (hfirst : InCalendar (dayStart o first))
    (hlast : InCalendar (dayStart o (last + 1))) (records : List Record) :
    records.filter (·.startsIn (Range.dayBounds o first last)) =
      onDays (fixed o) first last records := by
  apply List.filter_congr
  intro r _
  have h := Range.mem_dayBounds_iff hfirst hlast r.start.toInt
  rw [Bool.eq_iff_iff, Record.startsIn, Bool.and_eq_true, decide_eq_true_eq, decide_eq_true_eq, h,
    Record.day?]
  cases Instant.ofMillis? r.start.toInt <;> simp

theorem sendable_dayBounds (hfirst : InCalendar (dayStart o first))
    (hlast : InCalendar (dayStart o (last + 1))) (hle : first ≤ last + 1) :
    Remote.Sendable (Range.dayBounds o first last) := by
  simp only [InCalendar, dayStart, daySeconds, Date.firstNumber, Date.lastNumber] at hfirst hlast
  constructor <;>
    simp only [Within, limit64, Range.dayBounds, dayStart, daySeconds] <;> omega

/-! ## Charts of local days -/

namespace Source

variable {source : Source} {b : Bounds} {p : Pane}

theorem chart_of_usages {usages : List Usage} (hp : p ≠ .timeline)
    (h : source.usages b = .ok usages) :
    source.chart b p = .ok (.pie (Breakdown.ofUsages usages)) := by
  cases p with
  | timeline => contradiction
  | summary => simp only [chart, h]; rfl
  | window w => simp only [chart, h]; rfl

theorem chart_of_records {records : List Record} (h : source.records b = .ok records) :
    source.chart b .timeline = .ok (.timeline (Daybook.timeline records)) := by
  simp only [chart, h]
  rfl

theorem shown_of_ok {z : Zone} {r q : Range} {chart : Chart} (hpart : r.part z p = some q)
    (hb : q.bounds z = .ok b) (hchart : source.chart b p = .ok chart) :
    source.shown z r p = .loaded chart := by
  simp only [shown, hpart, reply, hb, hchart]
  rfl

end Source

section Charts

variable {host : String} (hhost : Http.Url.IsHost host) (offsetMinutes : Int) (config : Config)
  (hfirst : InCalendar (dayStart o first)) (hlast : InCalendar (dayStart o (last + 1)))
  (hle : first ≤ last + 1)

include hhost hfirst hlast hle

/-- A pie of local days sums up the records that start on them. -/
theorem exists_pie (hfit : LengthsFit records) {p : Pane} (hp : p ≠ .timeline) :
    ∃ pie, ((Remote.ofUrl ("http://" ++ host) offsetMinutes).source
        (Bridge.serving records config).network).chart (Range.dayBounds o first last) p =
          .ok (.pie pie) ∧
      pie.Sums ((onDays (fixed o) first last records).map Record.named) := by
  obtain ⟨usages, husages, hnodup, hmem, hsum⟩ :=
    Table.exists_usages?_map_toRow (hfit (Range.dayBounds o first last))
  have hsource := Remote.usages_source (b := Bridge.serving records config)
    (Remote.base_ofUrl hhost offsetMinutes) hhost (sendable_dayBounds hfirst hlast hle) husages
  refine ⟨Breakdown.ofUsages usages, Source.chart_of_usages hp hsource, ?_⟩
  have hsums := Breakdown.sums_of_grouped hmem hsum hnodup
  rw [List.map_map, filter_startsIn hfirst hlast] at hsums
  exact hsums

variable (records) in
/-- The timeline of local days has a bar for each record that starts on them. -/
theorem exists_bars :
    ∃ bars ordered, ((Remote.ofUrl ("http://" ++ host) offsetMinutes).source
        (Bridge.serving records config).network).chart (Range.dayBounds o first last) .timeline =
          .ok (.timeline bars) ∧
      Table.ByStart ordered (onDays (fixed o) first last records) ∧
      List.Forall₂ Bar.Shows bars ordered := by
  obtain ⟨ordered, hrecords, horder⟩ :=
    Table.exists_records? (Range.dayBounds o first last) records
  rw [filter_startsIn hfirst hlast] at horder
  have hsource := Remote.records_source (b := Bridge.serving records config)
    (Remote.base_ofUrl hhost offsetMinutes) hhost (sendable_dayBounds hfirst hlast hle) hrecords
  refine ⟨timeline ordered, ordered, Source.chart_of_records hsource, horder, ?_⟩
  · rw [timeline, List.forall₂_map_left_iff, List.forall₂_same]
    exact fun r _ => ⟨rfl, rfl, rfl, rfl, rfl⟩

end Charts

namespace Session

theorem mem_shownWindows {s : Session} {z : Zone} {r : Range} (hp : s.Pointed z (some r))
    {w : Window} {v : View Range Chart} (h : (w, v) ∈ s.dashboard.shownWindows) :
    v = s.view (.window w) ∧ ∃ q, (w, q) ∈ r.trailing z := by
  obtain ⟨hmem, hactive⟩ := List.mem_filter.mp h
  obtain ⟨w', -, heq⟩ := List.mem_map.mp hmem
  obtain ⟨rfl, rfl⟩ := Prod.mk.inj heq
  obtain ⟨q, hq⟩ := Option.isSome_iff_exists.mp hactive
  exact ⟨rfl, q, Range.part_window_eq_some_iff.mp ((hp.active_eq _).symm.trans hq)⟩

/-- Once all fetches from a bridge have ended, the summary of the last accepted range sums up the
records of its local days by name, each window those of the days that it counts back to, and the
timeline of a single day has a bar for each record of that day. -/
theorem shows_days_of_settled {host : String} (hhost : Http.Url.IsHost host) (offsetMinutes : Int)
    (config : Config) {records : List Record} (hfit : LengthsFit records) (o : Offset)
    (events : List Event) (hs : (after (fixed o) events).Settled)
    (ha : (after (fixed o) events).AnsweredBy
      ((Remote.ofUrl ("http://" ++ host) offsetMinutes).source
        (Bridge.serving records config).network))
    {r : Range} (hr : lastAccepted (fixed o) events = some r) :
    let s := after (fixed o) events
    let first := ((fixed o).dateAt r.start).number
    let last := ((fixed o).dateAt r.stop).number
    (∃ pie, (s.view .summary).state = .loaded (.pie pie) ∧
      pie.Sums ((onDays (fixed o) first last records).map Record.named)) ∧
    (∀ w v, (w, v) ∈ s.dashboard.shownWindows →
      ∃ pie, v.state = .loaded (.pie pie) ∧
        pie.Sums ((onDays (fixed o) (last - w.days) last records).map Record.named)) ∧
    (first = last → ∃ bars ordered, (s.view .timeline).state = .loaded (.timeline bars) ∧
      Table.ByStart ordered (onDays (fixed o) first last records) ∧
      List.Forall₂ Bar.Shows bars ordered) := by
  intro s first last
  obtain ⟨b, hb⟩ := exists_bounds_of_lastAccepted hr
  have hp : s.Pointed (fixed o) (some r) := hr ▸ pointed_after (fixed o) events
  have hstate := state_of_settled (consistent_after (fixed o) events) hp hs ha
  obtain ⟨hle, -, hfirst, hlast, rfl⟩ := Range.bounds_fixed_iff.mp hb
  have hdays : first ≤ last := Range.number_dateAt_le hle
  refine ⟨?_, ?_, ?_⟩
  · obtain ⟨pie, hchart, hsums⟩ := exists_pie hhost offsetMinutes config hfirst hlast (by omega)
      hfit (p := .summary) (by decide)
    exact ⟨pie, (hstate .summary).trans (Source.shown_of_ok (Range.part_summary _ r) hb hchart),
      hsums⟩
  · intro w v hv
    obtain ⟨rfl, q, hq⟩ := mem_shownWindows hp hv
    have hspan := (Range.mem_trailing.mp hq).1
    rw [Range.spanDays, Date.daysTo] at hspan
    have hstart : InCalendar (dayStart o (last - w.days)) :=
      Range.inCalendar_dayStart hfirst hlast (by omega) (by omega)
    obtain ⟨pie, hchart, hsums⟩ := exists_pie hhost offsetMinutes config hstart hlast (by omega)
      hfit (p := .window w) (by simp)
    exact ⟨pie, (hstate (.window w)).trans (Source.shown_of_ok
      (Range.part_window_eq_some_iff.mpr hq) (Range.bounds_of_mem_trailing hb hq) hchart), hsums⟩
  · intro hone
    have hpart : r.part (fixed o) .timeline = some r := by
      rw [Range.part_timeline, if_pos]
      rw [Range.spanDays, Date.daysTo]
      omega
    obtain ⟨bars, ordered, hchart, horder, hbars⟩ :=
      exists_bars records hhost offsetMinutes config hfirst hlast (by omega)
    exact ⟨bars, ordered, (hstate .timeline).trans (Source.shown_of_ok hpart hb hchart), horder,
      hbars⟩

/-- Two executables of one name on the second day after 1970-01-01, and something before. -/
def threeRecords : List Record :=
  [⟨86403000, 86405000, 7, "/bin/sh", "b"⟩, ⟨86401000, 86402000, 8, "/usr/bin/sh", "a"⟩,
    ⟨82799999, 86400000, 9, "/bin/ls", "c"⟩]

theorem shows_days_of_settled_one_day :
    let o : Offset := ⟨3600, by decide, by decide⟩
    let r := Range.day ⟨90000, 0, by decide, by decide⟩
    let source := (Remote.ofUrl ("http://" ++ "127.0.0.1:17700") 60).source
      (Bridge.serving threeRecords {}).network
    Http.Url.IsHost "127.0.0.1:17700" ∧ LengthsFit threeRecords ∧
      ∃ completions : List Event, (∀ e ∈ completions, e.isCompletion) ∧
        let s := after (fixed o) (.select r :: completions)
        s.Settled ∧ s.AnsweredBy source ∧
        lastAccepted (fixed o) (.select r :: completions) = some r ∧
        ∃ pie bars ordered, (s.view .summary).state = .loaded (.pie pie) ∧
          pie.Sums [("sh", 2000), ("sh", 1000)] ∧
          (s.view .timeline).state = .loaded (.timeline bars) ∧
          Table.ByStart ordered (threeRecords.take 2) ∧ List.Forall₂ Bar.Shows bars ordered := by
  intro o r source
  have hhost : Http.Url.IsHost "127.0.0.1:17700" := ⟨by simp, by simp⟩
  have hfit : LengthsFit threeRecords := lengthsFit_of_natAbs_sum_lt (by decide +kernel)
  have hb : r.bounds (fixed o) = .ok ⟨82800000, 169200000⟩ := by decide +kernel
  obtain ⟨completions, hall, hs, ha⟩ := exists_fresh_settled source (fixed o) r
  have hr := lastAccepted_select hb hall
  have hdays : onDays (fixed o) 1 1 threeRecords = threeRecords.take 2 := by decide +kernel
  have hnames : (threeRecords.take 2).map Record.named = [("sh", 2000), ("sh", 1000)] := by
    decide +kernel
  obtain ⟨⟨pie, hpie, hsums⟩, -, htimeline⟩ :=
    shows_days_of_settled hhost 60 {} hfit o (.select r :: completions) hs ha hr
  obtain ⟨bars, ordered, hbars, horder, hshows⟩ := htimeline rfl
  have hday : ((fixed o).dateAt r.start).number = 1 ∧ ((fixed o).dateAt r.stop).number = 1 := by
    decide +kernel
  rw [hday.1, hday.2, hdays, hnames] at hsums
  rw [hday.1, hday.2, hdays] at horder
  exact ⟨hhost, hfit, completions, hall, hs, ha, hr, pie, bars, ordered, hpie, hsums, hbars, horder,
    hshows⟩

end Session

end Daybook
