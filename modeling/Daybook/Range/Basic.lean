import Daybook.Calendar.Zone
import Daybook.Range.Error

/-! A selection of time, and the whole local days that it covers as a half-open range of
milliseconds. -/

namespace Daybook

/-- What the user selected. It is replaced as a whole and never changed in place. -/
structure Range where
  start : Instant
  stop : Instant
deriving DecidableEq

/-- Milliseconds from `lower` on, up to but without `upper`. -/
structure Bounds where
  lower : Int
  upper : Int
deriving DecidableEq, Repr

namespace Range

/-- The day that an instant lies in. -/
def day (i : Instant) : Range := ⟨i, i⟩

/-- Whole local days from the first day to the last one; none for a single day. -/
def spanDays (z : Zone) (r : Range) : Int :=
  (z.dateAt r.start).daysTo (z.dateAt r.stop)

end Range

/-- The start of a local day, if its midnight exists. -/
def Zone.midnight (z : Zone) (d : Date) : Except RangeError Instant :=
  match z.midnight? d with
  | some i => .ok i
  | none => .error (.noMidnight d)

/-- From the start of the first local day to the start of the day after the last one. -/
def Range.bounds (z : Zone) (r : Range) : Except RangeError Bounds :=
  if r.stop < r.start then
    .error (.reversed r.start.millis r.stop.millis)
  else
    match (z.dateAt r.stop).succ? with
    | none => .error (.lastDay (z.dateAt r.stop))
    | some next => do
      let lower ← z.midnight (z.dateAt r.start)
      let upper ← z.midnight next
      return ⟨lower.millis, upper.millis⟩

end Daybook
