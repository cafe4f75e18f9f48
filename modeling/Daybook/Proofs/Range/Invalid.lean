import Daybook.Proofs.Range.Bounds
import Daybook.Proofs.Steps
import Daybook.Range.Endpoint

/-! # Invalid ranges

Two texts give no range if one of them is missing, cannot be read or names a day without a midnight. A
range has no bounds if it is reversed, if the calendar ends with it, or if one of its midnights does not
exist. -/

namespace Daybook

open Text

variable {z : Zone} {d : Date} {error : RangeError}

/-- No clock in the zone shows the midnight of the day, or one shows it outside the calendar. -/
def Zone.LacksMidnight (z : Zone) (d : Date) : Prop :=
  z.Skips (d.number * daySeconds) ∨ z.ShowsOutside (d.number * daySeconds)

theorem Zone.midnight?_eq_none_iff : z.midnight? d = none ↔ z.LacksMidnight d :=
  earliest?_eq_none_iff (by decide)

theorem Zone.midnight_eq_error_iff :
    z.midnight d = .error error ↔ z.LacksMidnight d ∧ error = .noMidnight d := by
  rw [← midnight?_eq_none_iff, midnight]
  cases z.midnight? d <;> simp [eq_comm]

/-! ## Endpoints -/

namespace Endpoint

variable {e : Endpoint} {text : List Char}

/-- Why a text is no endpoint. -/
inductive Unusable (z : Zone) (e : Endpoint) (text : List Char) : RangeError → Prop
  /-- There is nothing but white space. -/
  | missing (hblank : trim text = []) : Unusable z e text (.missing e)
  /-- The text is neither a date nor a timestamp. -/
  | unreadable (hne : trim text ≠ []) (hdate : Date.read? (trim text) = none)
      (htime : Timestamp.read? (trim text) = none) :
      Unusable z e text (.unreadable e (String.ofList (trim text)))
  /-- The text is a date, and its day has no midnight. -/
  | noMidnight {d : Date} (hdate : Date.read? (trim text) = some d) (hlacks : z.LacksMidnight d) :
      Unusable z e text (.noMidnight d)

theorem ofText_eq_error_iff : e.ofText z text = .error error ↔ Unusable z e text error := by
  simp only [ofText]
  constructor
  · intro h
    split at h
    · next hblank =>
      cases h
      exact .missing hblank
    next hne =>
    split at h
    · next d hdate =>
      obtain ⟨hlacks, rfl⟩ := Zone.midnight_eq_error_iff.mp h
      exact .noMidnight hdate hlacks
    next hdate =>
    split at h
    · contradiction
    · next htime =>
      cases h
      exact .unreadable hne hdate htime
  · intro h
    cases h with
    | missing hblank => rw [if_pos hblank]
    | unreadable hne hdate htime => simp [hne, hdate, htime]
    | noMidnight hdate hlacks =>
      have hne : trim text ≠ [] := by
        intro hblank
        have hnone : Date.read? [] = none := by decide
        rw [hblank, hnone] at hdate
        contradiction
      simp [hne, hdate, Zone.midnight_eq_error_iff.mpr ⟨hlacks, rfl⟩]

end Endpoint

namespace Range

/-- Why two texts give no range. The second one matters only if the first one is an endpoint. -/
inductive BadTexts (z : Zone) (start stop : String) : RangeError → Prop
  | start {error : RangeError} (h : Endpoint.start.Unusable z start.toList error) :
      BadTexts z start stop error
  | stop {error : RangeError} (hstart : ∀ e, ¬Endpoint.start.Unusable z start.toList e)
      (h : Endpoint.stop.Unusable z stop.toList error) : BadTexts z start stop error

theorem ofTexts_eq_error_iff {start stop : String} :
    ofTexts z (some start) (some stop) = .error error ↔ BadTexts z start stop error := by
  have hstop : ∀ i : Instant, (Endpoint.stop.ofText z stop.toList >>= fun j => pure (Range.mk i j)) =
      .error error ↔ Endpoint.stop.Unusable z stop.toList error := by
    intro i
    rw [bind_eq_error_iff, Endpoint.ofText_eq_error_iff]
    simp [pure, Except.pure]
  simp only [ofTexts, Endpoint.ofText?, bind_eq_error_iff (x := Endpoint.start.ofText z _), hstop,
    exists_and_right, exists_eq_ok_iff, ne_eq, Endpoint.ofText_eq_error_iff]
  constructor
  · rintro (h | ⟨hstart, h⟩)
    · exact .start h
    · exact .stop hstart h
  · rintro (h | ⟨hstart, h⟩)
    · exact .inl h
    · exact .inr ⟨hstart, h⟩

/-! ## Bounds -/

/-- Why a range has no bounds. -/
inductive Refused (z : Zone) (r : Range) : RangeError → Prop
  /-- The range starts after it ends. -/
  | reversed (h : r.stop < r.start) : Refused z r (.reversed r.start.millis r.stop.millis)
  /-- The last day is the last one of the calendar. A local clock past the calendar comes under this too,
  although it shows no calendar day: whoever asks for that day breaks off and refuses nothing. -/
  | lastDay (h : r.start ≤ r.stop) (hlast : Date.lastNumber ≤ (z.dateAt r.stop).number) :
      Refused z r (.lastDay (z.dateAt r.stop))
  /-- The first day has no midnight. -/
  | noFirstMidnight (h : r.start ≤ r.stop) (hlast : (z.dateAt r.stop).number < Date.lastNumber)
      (hlacks : z.LacksMidnight (z.dateAt r.start)) : Refused z r (.noMidnight (z.dateAt r.start))
  /-- The first day has a midnight and the day after the last one has none. -/
  | noNextMidnight (h : r.start ≤ r.stop) (hlast : (z.dateAt r.stop).number < Date.lastNumber)
      (hfirst : ¬z.LacksMidnight (z.dateAt r.start))
      (hlacks : z.LacksMidnight ⟨(z.dateAt r.stop).number + 1⟩) :
      Refused z r (.noMidnight ⟨(z.dateAt r.stop).number + 1⟩)

theorem bounds_eq_error_iff_refused {r : Range} :
    r.bounds z = .error error ↔ Refused z r error := by
  constructor
  · intro h
    by_cases hlt : r.stop < r.start
    · rw [bounds_of_lt hlt] at h
      cases h
      exact .reversed hlt
    have hle := Instant.not_lt.mp hlt
    by_cases hlast : (z.dateAt r.stop).number < Date.lastNumber
    · rw [bounds_of_lt_lastNumber hle hlast, bind_eq_error_iff] at h
      rcases h with h | ⟨lower, hlower, h⟩
      · obtain ⟨hlacks, rfl⟩ := Zone.midnight_eq_error_iff.mp h
        exact .noFirstMidnight hle hlast hlacks
      rw [bind_eq_error_iff] at h
      rcases h with h | ⟨upper, -, h⟩
      · obtain ⟨hlacks, rfl⟩ := Zone.midnight_eq_error_iff.mp h
        refine .noNextMidnight hle hlast (fun hfirst => ?_) hlacks
        rw [Zone.midnight_eq_error_iff.mpr ⟨hfirst, rfl⟩] at hlower
        contradiction
      · contradiction
    · rw [bounds_of_lastNumber_le hle (Int.not_lt.mp hlast)] at h
      cases h
      exact .lastDay hle (Int.not_lt.mp hlast)
  · intro h
    cases h with
    | reversed hlt => exact bounds_of_lt hlt
    | lastDay hle hlast => exact bounds_of_lastNumber_le hle hlast
    | noFirstMidnight hle hlast hlacks =>
      rw [bounds_of_lt_lastNumber hle hlast, Zone.midnight_eq_error_iff.mpr ⟨hlacks, rfl⟩]
      rfl
    | noNextMidnight hle hlast hfirst hlacks =>
      obtain ⟨lower, hlower⟩ : ∃ i, z.midnight (z.dateAt r.start) = .ok i := by
        refine exists_eq_ok_iff.mpr fun e he => hfirst (Zone.midnight_eq_error_iff.mp he).1
      rw [bounds_of_lt_lastNumber hle hlast, hlower, Zone.midnight_eq_error_iff.mpr ⟨hlacks, rfl⟩]
      rfl

end Range

end Daybook
