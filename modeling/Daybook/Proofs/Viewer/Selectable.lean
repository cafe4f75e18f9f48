import Daybook.Proofs.Table.ActiveDays
import Daybook.Proofs.Viewer.Days
import Daybook.Viewer.ActiveDays

/-! # The days that can be picked

The bridge cuts days in milliseconds, the viewer starts them at midnights of a calendar, and a query
ends them at the next midnight. With the offset that both clamp, all three mean the same days. -/

namespace Daybook

open Zone

variable {o : Offset} {records : List Record} {d : Date}

/-! ## One notion of a day -/

/-- The day into which the bridge puts a record is the one that its start falls on. -/
theorem Record.day?_eq_some_iff {r : Record} (h : InCalendar (r.start.toInt / 1000)) :
    r.day? (fixed o) = some d ↔
      Table.localMidnight (o.seconds * 1000) r.start.toInt = dayStart o d.number * 1000 := by
  obtain ⟨i, hi⟩ := Instant.exists_ofMillis? h
  have hs := Instant.second_of_ofMillis? hi
  obtain ⟨number⟩ := d
  rw [day?, hi, Option.map_some, Option.some_inj, dateAt_fixed, Date.mk.injEq]
  simp only [Table.localMidnight, dayStart, daySeconds, dayMillis]
  omega

theorem onDays_ne_nil_iff :
    onDays (fixed o) d.number d.number records ≠ [] ↔ ∃ r ∈ records, r.day? (fixed o) = some d := by
  rw [onDays, ne_eq, List.filter_eq_nil_iff]
  push Not
  refine exists_congr fun r => and_congr_right fun _ => ?_
  cases hday : r.day? (fixed o) with
  | none => simp
  | some day =>
    obtain ⟨number⟩ := d
    obtain ⟨number'⟩ := day
    simp only [Option.any_some, decide_eq_true_eq, Option.some_inj, Date.mk.injEq]
    omega

/-- A day with a midnight can be picked if its midnight is among the known ones. -/
theorem ActiveDays.isDaySelectable_fixed_iff {days : List Int64} {today : Date} :
    (⟨some (days, today)⟩ : ActiveDays).isDaySelectable (fixed o) d ↔
      InCalendar (dayStart o d.number) ∧ ∃ day ∈ days, day.toInt = dayStart o d.number * 1000 := by
  rw [isDaySelectable, midnight?_fixed]
  by_cases h : InCalendar (dayStart o d.number)
  · simp [Instant.of?, h, isSelectable, Instant.millis]
  · simp [Instant.of?, h]

/-- The zone of a remote source has the offset that the bridge cuts days for. -/
theorem Remote.exists_zone (url : String) (offsetMinutes : Int) :
    ∃ o : Offset, (ofUrl url offsetMinutes).zone = fixed o ∧
      o.seconds * 1000 = Bridge.clampMinutes offsetMinutes * 60000 := by
  have hrange : -86400 < Bridge.clampMinutes offsetMinutes * 60 ∧
      Bridge.clampMinutes offsetMinutes * 60 < 86400 := by
    rw [Bridge.clampMinutes]
    omega
  refine ⟨⟨Bridge.clampMinutes offsetMinutes * 60, hrange.1, hrange.2⟩, ?_, ?_⟩
  · simp [zone, ofUrl, Offset.of?, hrange]
  · simp only
    omega

/-! ## Days of the bridge -/

/-- All records start at least 14 hours after 1970 begins and 14 hours before the calendar ends. -/
def InnerStarts (records : List Record) : Prop :=
  ∀ r ∈ records, 50400000 ≤ r.start.toInt ∧
    r.start.toInt < (Date.lastNumber + 1) * dayMillis - 50400000

namespace InnerStarts

variable {r : Record}

theorem inCalendar (h : InnerStarts records) (hr : r ∈ records) :
    InCalendar (r.start.toInt / 1000) := by
  have hstart := h r hr
  simp only [Date.lastNumber, dayMillis] at hstart
  simp only [InCalendar, Date.firstNumber, Date.lastNumber, daySeconds]
  omega

theorem inCalendar_dayStart (h : InnerStarts records) (hr : r ∈ records)
    (hday : Table.localMidnight (o.seconds * 1000) r.start.toInt = dayStart o d.number * 1000) :
    InCalendar (dayStart o d.number) := by
  have hstart := h r hr
  have hlt := o.lt
  simp only [Table.localMidnight, dayMillis] at hday
  simp only [Date.lastNumber, dayMillis] at hstart
  simp only [InCalendar, Date.firstNumber, Date.lastNumber, daySeconds]
  omega

end InnerStarts

variable {host : String} (hhost : Http.Url.IsHost host) (offsetMinutes : Int) (config : Config)

include hhost

variable (records) in
/-- The query for a day finds a record if one starts on the day. -/
theorem Remote.exists_found {range : Range} {b : Bounds}
    (hstart : (fixed o).dateAt range.start = d) (hstop : (fixed o).dateAt range.stop = d)
    (hb : range.bounds (fixed o) = .ok b) :
    ∃ found, Table.records? b (records.map Record.toRow) = some found ∧
      ((ofUrl ("http://" ++ host) offsetMinutes).source
        (Bridge.serving records config).network).records b = .ok found ∧
      (found ≠ [] ↔ ∃ r ∈ records, r.day? (fixed o) = some d) := by
  obtain ⟨-, -, hfirst, hlast, rfl⟩ := Range.bounds_fixed_iff.mp hb
  rw [hstart] at hfirst ⊢
  rw [hstop] at hlast ⊢
  obtain ⟨found, hfound, horder⟩ :=
    Table.exists_records? (Range.dayBounds o d.number d.number) records
  have hsource := records_source (b := Bridge.serving records config)
    (base_ofUrl hhost offsetMinutes) hhost (sendable_dayBounds hfirst hlast (by omega)) hfound
  rw [filter_startsIn hfirst hlast] at horder
  refine ⟨found, hfound, hsource, ?_⟩
  rw [← onDays_ne_nil_iff, ← List.length_pos_iff, horder.perm.length_eq, List.length_pos_iff]

variable (hstarts : InnerStarts records)

include hstarts

/-- What the source says is active are the days of the records. -/
theorem Remote.exists_activeDays :
    ∃ days, ((ofUrl ("http://" ++ host) offsetMinutes).source
        (Bridge.serving records config).network).activeDays = .ok days ∧
      ∀ day : Int, (∃ d ∈ days, d.toInt = day) ↔ ∃ r ∈ records,
        Table.localMidnight (Bridge.clampMinutes offsetMinutes * 60000) r.start.toInt = day := by
  have hoffset := Table.natAbs_clampMinutes offsetMinutes
  have hrows : (records.map Record.toRow).map (·.start) =
      (records.map (·.start)).map Table.Cell.integer := by
    rw [List.map_map, List.map_map]
    rfl
  have hfit : ∀ start ∈ records.map (·.start),
      Within limit64 (start.toInt + Bridge.clampMinutes offsetMinutes * 60000) := by
    intro start hstart
    obtain ⟨r, hr, rfl⟩ := List.mem_map.mp hstart
    have h := hstarts r hr
    simp only [Date.lastNumber, dayMillis] at h
    simp only [Within, limit64]
    omega
  obtain ⟨listed, hlisted, -, hmem⟩ := Table.exists_activeDays? hrows hoffset hfit
  have hsource := activeDays_eq (b := Bridge.serving records config)
    (base_ofUrl hhost offsetMinutes) hhost (within_clampMinutes offsetMinutes)
  simp only [ofUrl, clampMinutes_clampMinutes, Bridge.serving, Option.bind_some, hlisted] at hsource
  refine ⟨sortDays listed, hsource, fun day => ?_⟩
  simp only [(ascending_sortDays listed).mem_iff, hmem, List.mem_map, exists_exists_and_eq_and]
  -- From 14 hours after 1970 begins on, rounding goes down in every zone.
  refine exists_congr fun r => and_congr_right fun hr => ?_
  have h := (hstarts r hr).1
  rw [Table.listedDay_of_nonneg (by omega)]

/-- Once the active days of a bridge were asked for, a day can be picked if some record starts on it in
the zone of the source. If the day makes a range, this is so just if the query for that range finds a
record. -/
theorem Remote.selectable_iff_holds_record (today : Date) :
    let remote := ofUrl ("http://" ++ host) offsetMinutes
    let source := remote.source (Bridge.serving records config).network
    ∃ known : ActiveDays,
      (∀ a : ActiveDays, a.refresh today source.activeDays = (known, .ok ()) ∧
        (¬a.isCurrent today → a.ensure today source.activeDays = (known, .ok (), true))) ∧
      (∀ d, known.isDaySelectable remote.zone d ↔ ∃ r ∈ records, r.day? remote.zone = some d) ∧
      ∀ (d : Date) (range : Range) (b : Bounds), remote.zone.dateAt range.start = d →
        remote.zone.dateAt range.stop = d → range.bounds remote.zone = .ok b →
        ∃ found, Table.records? b (records.map Record.toRow) = some found ∧
          source.records b = .ok found ∧
          (known.isDaySelectable remote.zone d ↔ found ≠ []) := by
  intro remote source
  obtain ⟨days, hdays, hmem⟩ : ∃ days, source.activeDays = .ok days ∧ _ :=
    exists_activeDays hhost offsetMinutes config hstarts
  obtain ⟨o, hzone, hseconds⟩ : ∃ o, remote.zone = fixed o ∧ _ := exists_zone _ offsetMinutes
  rw [hzone]
  have hselectable : ∀ d, (⟨some (days, today)⟩ : ActiveDays).isDaySelectable (fixed o) d ↔
      ∃ r ∈ records, r.day? (fixed o) = some d := by
    intro d
    rw [ActiveDays.isDaySelectable_fixed_iff, hmem, ← hseconds]
    constructor
    · rintro ⟨-, r, hr, hday⟩
      exact ⟨r, hr, (Record.day?_eq_some_iff (hstarts.inCalendar hr)).mpr hday⟩
    · rintro ⟨r, hr, hday⟩
      have hmidnight := (Record.day?_eq_some_iff (hstarts.inCalendar hr)).mp hday
      exact ⟨hstarts.inCalendar_dayStart hr hmidnight, r, hr, hmidnight⟩
  have hrefresh : ∀ a : ActiveDays,
      a.refresh today source.activeDays = (⟨some (days, today)⟩, .ok ()) := by
    intro a
    rw [hdays]
    rfl
  refine ⟨⟨some (days, today)⟩, fun a => ⟨hrefresh a, fun ha => ?_⟩, hselectable, ?_⟩
  · rw [ActiveDays.ensure, if_neg ha, hrefresh]
  · intro d range b hstart hstop hb
    obtain ⟨found, hfound, hsource, hiff⟩ :=
      exists_found records hhost offsetMinutes config hstart hstop hb
    exact ⟨found, hfound, hsource, (hselectable d).trans hiff.symm⟩

omit hhost hstarts

/-- Fourteen hours east of UTC: the last millisecond of January 2nd, the first one of January 4th and
four o'clock on January 2nd. -/
def spreadRecords : List Record :=
  [⟨122399999, 122400000, 7, "/bin/sh", "b"⟩, ⟨208800000, 0, 8, "/bin/ls", ""⟩,
    ⟨50400000, 50400001, 7, "/bin/sh", "a"⟩]

theorem Remote.selectable_iff_holds_record_spread :
    let remote := ofUrl ("http://" ++ "127.0.0.1:17700") 900
    let source := remote.source (Bridge.serving spreadRecords {}).network
    Http.Url.IsHost "127.0.0.1:17700" ∧ InnerStarts spreadRecords ∧
    ∃ known : ActiveDays,
      ActiveDays.ensure {} ⟨5⟩ source.activeDays = (known, .ok (), true) ∧
      known.isDaySelectable remote.zone ⟨1⟩ ∧ ¬known.isDaySelectable remote.zone ⟨2⟩ ∧
      source.records ⟨36000000, 122400000⟩ ≠ .ok [] ∧
      source.records ⟨122400000, 208800000⟩ = .ok [] := by
  intro remote source
  have hhost : Http.Url.IsHost "127.0.0.1:17700" := ⟨by simp, by simp⟩
  have hstarts : InnerStarts spreadRecords := by
    unfold InnerStarts
    decide
  obtain ⟨known, hload, hdays, hranges⟩ := selectable_iff_holds_record hhost 900 {} hstarts ⟨5⟩
  have hfirst : known.isDaySelectable remote.zone ⟨1⟩ := (hdays ⟨1⟩).mpr (by decide +kernel)
  have hsecond : ¬known.isDaySelectable remote.zone ⟨2⟩ := fun h =>
    absurd ((hdays ⟨2⟩).mp h) (by decide +kernel)
  obtain ⟨found, -, hfound, hiff⟩ := hranges ⟨1⟩ (.day ⟨86400, 0, by decide, by decide⟩)
    ⟨36000000, 122400000⟩ (by decide +kernel) (by decide +kernel) (by decide +kernel)
  obtain ⟨found', -, hfound', hiff'⟩ := hranges ⟨2⟩ (.day ⟨172800, 0, by decide, by decide⟩)
    ⟨122400000, 208800000⟩ (by decide +kernel) (by decide +kernel) (by decide +kernel)
  refine ⟨hhost, hstarts, known, (hload {}).2 (by decide), hfirst, hsecond, ?_, ?_⟩
  · intro hempty
    exact hiff.mp hfirst (Except.ok.inj (hfound.symm.trans hempty))
  · have hempty : found' = [] := by
      by_contra h
      exact hsecond (hiff'.mpr h)
    exact hfound'.trans (congrArg _ hempty)

end Daybook
