import Daybook.Proofs.Calendar.Text
import Daybook.Proofs.Calendar.Timestamp
import Daybook.Proofs.Range.FixedZone
import Daybook.Proofs.Range.Invalid
import Daybook.Proofs.Range.Midnight

/-! # What an endpoint is read as

A text is nothing, a date, a timestamp or unreadable, and it is never two of these. The text of a date is
read as the start of that day, and where offsets are fixed it names the same instant as the timestamp of
that midnight. -/

namespace Daybook.Endpoint

open Text

variable {z : Zone} {e : Endpoint} {text : List Char} {result : Except RangeError Instant}

/-! ## The forms of an endpoint -/

/-- What a text without white space around it stands for. -/
inductive Reads (z : Zone) (e : Endpoint) (text : List Char) : Except RangeError Instant → Prop
  | missing (hnil : text = []) : Reads z e text (.error (.missing e))
  /-- A date is the start of its day, or the error that it has none. -/
  | date {d : Date} (h : Date.Spells text d) : Reads z e text (z.midnight d)
  | timestamp {s : Stamp} {i : Instant} (h : Timestamp.Spells text s) (hshown : s.ShownAt i) :
      Reads z e text (.ok i)
  | unreadable (hne : text ≠ []) (hdate : ∀ d, ¬Date.Spells text d)
      (htime : ∀ s, ¬Timestamp.Spells text s) :
      Reads z e text (.error (.unreadable e (String.ofList text)))

/-- Reads an endpoint the other way round: what is no timestamp has to be a date. -/
def ofTextBackwards (z : Zone) (e : Endpoint) (text : List Char) : Except RangeError Instant :=
  let text := trim text
  if text = [] then
    .error (.missing e)
  else
    match Timestamp.read? text with
    | some i => .ok i
    | none =>
      match Date.read? text with
      | some date => z.midnight date
      | none => .error (.unreadable e (String.ofList text))

/-- Timestamps have colons and dates have none. -/
theorem not_date_and_timestamp {d : Date} {s : Stamp} (hdate : Date.Spells text d) :
    ¬Timestamp.Spells text s :=
  fun htime => hdate.colon_notMem htime.colon_mem

theorem ofText_of_date {d : Date} (h : Date.Spells (trim text) d) :
    e.ofText z text = z.midnight d := by
  have hread := Date.read?_eq_some_iff.mpr h
  have hne : trim text ≠ [] := by
    intro hnil
    rw [hnil] at hread
    contradiction
  simp only [ofText, if_neg hne, hread]

theorem ofText_of_timestamp {s : Stamp} (h : Timestamp.Spells (trim text) s) :
    e.ofText z text = .ok s.instant := by
  have hread := Timestamp.read?_eq_some_iff.mpr ⟨s, h, rfl⟩
  have hdate := Date.read?_eq_none_iff.mpr fun d hd => not_date_and_timestamp hd h
  have hne : trim text ≠ [] := by
    intro hnil
    rw [hnil] at hread
    contradiction
  simp only [ofText, if_neg hne, hdate, hread]

theorem ofText_of_unreadable (hne : trim text ≠ []) (hdate : ∀ d, ¬Date.Spells (trim text) d)
    (htime : ∀ s, ¬Timestamp.Spells (trim text) s) :
    e.ofText z text = .error (.unreadable e (String.ofList (trim text))) := by
  simp only [ofText, if_neg hne, Date.read?_eq_none_iff.mpr hdate,
    Timestamp.read?_eq_none_iff.mpr htime]

/-- Whatever a text stands for is what is read. -/
theorem Reads.ofText_eq (h : Reads z e (trim text) result) : e.ofText z text = result := by
  cases h with
  | missing hnil => exact if_pos hnil
  | date h => exact ofText_of_date h
  | timestamp h hshown => rw [ofText_of_timestamp h, hshown.eq_instant]
  | unreadable hne hdate htime => exact ofText_of_unreadable hne hdate htime

/-- Every text stands for something. -/
theorem exists_reads (z : Zone) (e : Endpoint) (text : List Char) :
    ∃ result, Reads z e text result := by
  by_cases hnil : text = []
  · exact ⟨_, .missing hnil⟩
  by_cases hdate : ∃ d, Date.Spells text d
  · exact ⟨_, .date hdate.choose_spec⟩
  by_cases htime : ∃ s, Timestamp.Spells text s
  · exact ⟨_, .timestamp htime.choose_spec htime.choose.shownAt_instant⟩
  · exact ⟨_, .unreadable hnil (not_exists.mp hdate) (not_exists.mp htime)⟩

theorem Reads.error_cases {error : RangeError} (h : Reads z e text (.error error)) :
    (error = .missing e ∧ text = []) ∨
      (∃ d, error = .noMidnight d ∧ Date.Spells text d ∧ z.LacksMidnight d) ∨
      (error = .unreadable e (String.ofList text) ∧ text ≠ [] ∧ (∀ d, ¬Date.Spells text d) ∧
        ∀ s, ¬Timestamp.Spells text s) := by
  generalize hresult : Except.error error = result at h
  cases h with
  | missing hnil => exact .inl ⟨Except.error.inj hresult, hnil⟩
  | @date d hdate =>
    obtain ⟨hlacks, herror⟩ := Zone.midnight_eq_error_iff.mp hresult.symm
    exact .inr (.inl ⟨d, herror, hdate, hlacks⟩)
  | timestamp => contradiction
  | unreadable hne hdate htime =>
    exact .inr (.inr ⟨Except.error.inj hresult, hne, hdate, htime⟩)

theorem reads_missing_iff : Reads z e text (.error (.missing e)) ↔ text = [] := by
  constructor
  · intro h
    obtain ⟨-, hnil⟩ | ⟨d, herror, -⟩ | ⟨herror, -⟩ := h.error_cases
    · exact hnil
    · cases herror
    · cases herror
  · exact .missing

theorem reads_unreadable_iff {value : String} : Reads z e text (.error (.unreadable e value)) ↔
    value = String.ofList text ∧ text ≠ [] ∧ (∀ d, ¬Date.Spells text d) ∧
      ∀ s, ¬Timestamp.Spells text s := by
  constructor
  · intro h
    obtain ⟨herror, -⟩ | ⟨d, herror, -⟩ | ⟨herror, hforms⟩ := h.error_cases
    · cases herror
    · cases herror
    · obtain ⟨-, rfl⟩ := RangeError.unreadable.inj herror
      exact ⟨rfl, hforms⟩
  · rintro ⟨rfl, hne, hdate, htime⟩
    exact .unreadable hne hdate htime

theorem ofText_eq_iff : e.ofText z text = result ↔ Reads z e (trim text) result := by
  constructor
  · rintro rfl
    obtain ⟨result, h⟩ := exists_reads z e (trim text)
    rwa [h.ofText_eq]
  · exact Reads.ofText_eq

theorem ofTextBackwards_eq (z : Zone) (e : Endpoint) (text : List Char) :
    e.ofTextBackwards z text = e.ofText z text := by
  simp only [ofText, ofTextBackwards]
  split_ifs with hnil
  · rfl
  cases hdate : Date.read? (trim text) with
  | none => rfl
  | some d =>
    have htime := Timestamp.read?_eq_none_iff.mpr fun s =>
      not_date_and_timestamp (s := s) (Date.read?_eq_some_iff.mp hdate)
    rw [htime]

/-- An endpoint is missing, the start of the day that a date names, the instant that a timestamp writes,
or unreadable, as its text is nothing but white space, spells a date, spells a timestamp or does neither.
No text spells both, so it does not matter which of the two is tried first. -/
theorem reads_date_or_timestamp (z : Zone) (e : Endpoint) (text : String) :
    (∀ inner, trim text.toList = inner ↔ Trims text.toList inner) ∧
    (∀ result, e.ofText? z (some text) = result ↔ Reads z e (trim text.toList) result) ∧
    (e.ofText? z (some text) = .error (.missing e) ↔ trim text.toList = []) ∧
    (∀ value, e.ofText? z (some text) = .error (.unreadable e value) ↔
      value = String.ofList (trim text.toList) ∧ trim text.toList ≠ [] ∧
        (∀ d, ¬Date.Spells (trim text.toList) d) ∧
        ∀ s, ¬Timestamp.Spells (trim text.toList) s) ∧
    (∀ s : Stamp, ∃! i, s.ShownAt i) ∧
    (¬∃ d s, Date.Spells (trim text.toList) d ∧ Timestamp.Spells (trim text.toList) s) ∧
    e.ofTextBackwards z text.toList = e.ofText? z (some text) := by
  refine ⟨fun _ => trim_eq_iff, fun result => ofText_eq_iff, ofText_eq_iff.trans reads_missing_iff,
    fun value => ofText_eq_iff.trans reads_unreadable_iff, fun s => ?_, ?_, ofTextBackwards_eq z e _⟩
  · exact ⟨s.instant, s.shownAt_instant, fun i hi => hi.eq_instant⟩
  · rintro ⟨d, s, hdate, htime⟩
    exact not_date_and_timestamp hdate htime

/-! ## Written dates -/

theorem ofText_text {d : Date} (h : d.InCalendar) : e.ofText z d.text = z.midnight d := by
  have htrim : trim d.text = d.text := trim_eq_self fun _ hc => Date.not_isBlank_of_mem_text hc
  refine ofText_of_date ?_
  rw [htrim]
  exact Date.spells_text h

end Endpoint

open Text

/-- The sign, the hours and the minutes that an offset is written with. None at all takes either sign. -/
structure Offset.IsWritten (o : Offset) (sign : Char) (hours minutes : Nat) : Prop where
  hours_le : hours ≤ 23
  minutes_le : minutes ≤ 59
  seconds : sign = '+' ∧ o.seconds = (hours * 3600 + minutes * 60 : Nat) ∨
    sign = '-' ∧ o.seconds = -((hours * 3600 + minutes * 60 : Nat) : Int)

theorem Offset.exists_isWritten {o : Offset} (h : 60 ∣ o.seconds) :
    ∃ sign hours minutes, o.IsWritten sign hours minutes := by
  obtain ⟨n, hn⟩ := h
  have hgt := o.gt
  have hlt := o.lt
  rcases Int.le_total 0 n with hnonneg | hneg
  · exact ⟨'+', n.natAbs / 60, n.natAbs % 60, by omega, by omega, .inl ⟨rfl, by omega⟩⟩
  · exact ⟨'-', n.natAbs / 60, n.natAbs % 60, by omega, by omega, .inr ⟨rfl, by omega⟩⟩

theorem Offset.IsWritten.spells {o : Offset} {sign : Char} {hours minutes : Nat}
    (h : o.IsWritten sign hours minutes) :
    Timestamp.SpellsOffset (sign :: (zeroPadded 2 hours ++ ':' :: zeroPadded 2 minutes)) o.seconds := by
  have hhours := h.hours_le
  have hminutes := h.minutes_le
  have hspells : Timestamp.SpellsHoursMinutes (zeroPadded 2 hours ++ ':' :: zeroPadded 2 minutes)
      (hours * 3600 + minutes * 60) :=
    .mk (fixedDigits_zeroPadded (by decide) (by omega))
      (fixedDigits_zeroPadded (by decide) (by omega)) hhours hminutes
  rcases h.seconds with ⟨rfl, heq⟩ | ⟨rfl, heq⟩
  · rw [heq]
    exact .east hspells
  · rw [heq]
    exact .west (.inl rfl) hspells

namespace Date

/-- The form `2026-10-19T00:00:00+02:00`. -/
def midnightText (d : Date) (sign : Char) (hours minutes : Nat) : List Char :=
  d.text ++ "T00:00:00".toList ++ sign :: (zeroPadded 2 hours ++ ':' :: zeroPadded 2 minutes)

/-- The midnight of a date, as it can be written. -/
def midnightStamp (d : Date) (o : Offset) (hfirst : 0 ≤ d.civil.year) (hlast : d.civil.year ≤ 9999) :
    Stamp where
  date := d
  hour := 0
  minute := 0
  second := 0
  nano := 0
  offset := o
  year_nonneg := hfirst
  year_le := hlast
  hour_le := by decide
  minute_le := by decide
  second_le := by decide
  nano_lt := by decide

section Midnight

variable {d : Date} {o : Offset} {sign : Char} {hours minutes : Nat}
  (hfirst : 0 ≤ d.civil.year) (hlast : d.civil.year ≤ 9999)

theorem spells_midnightText (h : o.IsWritten sign hours minutes) :
    Timestamp.Spells (d.midnightText sign hours minutes) (d.midnightStamp o hfirst hlast) := by
  have hmonth := d.civil_spec.1.month_le
  have hday := d.civil_spec.1.day_le
  have hzero : FixedDigits 2 ['0', '0'] 0 := ⟨⟨by simp, by simp, rfl⟩, rfl⟩
  have hspells := Timestamp.Spells.mk (s := d.midnightStamp o hfirst hlast)
    (fixedDigits_zeroPadded (by decide) (n := d.civil.year.toNat) (by omega))
    (fixedDigits_zeroPadded (by decide) (n := d.civil.month) (by omega))
    (fixedDigits_zeroPadded (by decide) (n := d.civil.day) (by omega))
    (.inl (rfl : 'T' = 'T')) hzero hzero hzero .none h.spells
  have hyear : yearText d.civil.year = zeroPadded 4 d.civil.year.toNat := if_pos ⟨hfirst, hlast⟩
  have htime : "T00:00:00".toList = ['T', '0', '0', ':', '0', '0', ':', '0', '0'] := rfl
  simpa [midnightText, text, hyear, htime] using hspells

theorem midnight_fixed_eq_ok :
    (Zone.fixed o).midnight d = .ok (d.midnightStamp o hfirst hlast).instant := by
  rw [Zone.midnight_eq_ok_iff, Zone.midnight?_fixed, Instant.of?_eq_some_iff]
  simp [Stamp.instant, midnightStamp, Stamp.timeOfDay, Zone.dayStart]

end Midnight

end Date

namespace Endpoint

theorem ofText_midnightText {e : Endpoint} {z : Zone} {d : Date} {o : Offset} {sign : Char}
    {hours minutes : Nat} (hfirst : 0 ≤ d.civil.year) (hlast : d.civil.year ≤ 9999)
    (h : o.IsWritten sign hours minutes) :
    e.ofText z (d.midnightText sign hours minutes) =
      .ok (d.midnightStamp o hfirst hlast).instant := by
  have htrim : trim (d.midnightText sign hours minutes) = d.midnightText sign hours minutes := by
    refine trim_eq_self fun c hc => ?_
    simp only [Date.midnightText, List.mem_append, List.mem_cons] at hc
    have htime : ∀ c ∈ "T00:00:00".toList, ¬isBlank c := by
      simp only [Bool.not_eq_true, ← Bool.not_eq_true', ← List.all_eq_true]
      decide
    rcases hc with (hc | hc) | rfl | hc | rfl | hc
    · exact Date.not_isBlank_of_mem_text hc
    · exact htime c hc
    · rcases h.seconds with ⟨rfl, -⟩ | ⟨rfl, -⟩ <;> decide
    · exact Date.not_isBlank_of_mem_zeroPadded hc
    · decide
    · exact Date.not_isBlank_of_mem_zeroPadded hc
  refine ofText_of_timestamp ?_
  rw [htrim]
  exact Date.spells_midnightText hfirst hlast h

/-- The text of a date of the calendar is read as the start of that day, or as the error that it has
none. At a fixed offset it is the same instant as the timestamp of that midnight, for each date and each
offset that can be written in a timestamp. -/
theorem reads_written_dates (z : Zone) (e : Endpoint) (d : Date) :
    (d.InCalendar → e.ofText? z (some (String.ofList d.text)) = z.midnight d) ∧
    (∀ o : Offset, 60 ∣ o.seconds → ∃ sign hours minutes, o.IsWritten sign hours minutes) ∧
    (0 ≤ d.civil.year → d.civil.year ≤ 9999 →
      ∀ o sign hours minutes, Offset.IsWritten o sign hours minutes →
        ∃ i, e.ofText? (.fixed o) (some (String.ofList d.text)) = .ok i ∧
          e.ofText? (.fixed o) (some (String.ofList (d.midnightText sign hours minutes))) = .ok i) := by
  simp only [ofText?, String.toList_ofList]
  refine ⟨ofText_text, fun _ => Offset.exists_isWritten,
    fun hfirst hlast o sign hours minutes h => ?_⟩
  have hin : d.InCalendar := Date.inCalendar_iff.mpr
    ⟨Int.le_trans (by decide) hfirst, Int.le_trans hlast (by decide)⟩
  refine ⟨(d.midnightStamp o hfirst hlast).instant, ?_, ofText_midnightText hfirst hlast h⟩
  rw [ofText_text hin, Date.midnight_fixed_eq_ok]

/-- The last day of the calendar, a day that no clock of its zone starts, and a leap day west of UTC. -/
theorem reads_written_dates_last_skipped_leap :
    let west : Offset := ⟨-12600, by decide, by decide⟩
    Date.last.text = "+262142-12-31".toList ∧ Date.last.InCalendar ∧
    Endpoint.stop.ofText? .utc (some (String.ofList Date.last.text)) = Zone.utc.midnight Date.last ∧
    Endpoint.start.ofText? Zone.restless (some (String.ofList (Date.mk 20001).text)) =
      .error (.noMidnight ⟨20001⟩) ∧
    (Date.mk 19782).text = "2024-02-29".toList ∧ west.IsWritten '-' 3 30 ∧
    (Date.mk 19782).midnightText '-' 3 30 = "2024-02-29T00:00:00-03:30".toList ∧
    ∃ i, Endpoint.start.ofText? (.fixed west) (some (String.ofList (Date.mk 19782).text)) = .ok i ∧
      Endpoint.start.ofText? (.fixed west)
        (some (String.ofList ((Date.mk 19782).midnightText '-' 3 30))) = .ok i := by
  intro west
  have hwritten : west.IsWritten '-' 3 30 := ⟨by decide, by decide, .inr ⟨rfl, by decide⟩⟩
  obtain ⟨hlast, -, -⟩ := reads_written_dates .utc .stop Date.last
  obtain ⟨hskipped, -, -⟩ := reads_written_dates Zone.restless .start ⟨20001⟩
  obtain ⟨-, -, hleap⟩ := reads_written_dates .utc .start ⟨19782⟩
  refine ⟨by decide, by decide, hlast (by decide), hskipped (by decide), by decide, hwritten,
    by decide, hleap (by decide) (by decide) west '-' 3 30 hwritten⟩

end Endpoint

end Daybook
