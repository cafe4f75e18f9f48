import Daybook.Calendar.Zone
import Daybook.Fetch.Error

/-! The days that have any activity. They are asked for once a day and whenever somebody insists; an
answer that fails leaves the known ones as they are. -/

namespace Daybook

structure ActiveDays where
  /-- The starts of the days in milliseconds, and the day on which they were asked for. -/
  loaded : Option (List Int64 × Date) := none

namespace ActiveDays

def isLoaded (a : ActiveDays) : Bool :=
  a.loaded.isSome

/-- The days were asked for on the given day. -/
def isCurrent (a : ActiveDays) (today : Date) : Bool :=
  a.loaded.any (·.2 = today)

/-- Takes an answer that came on the given day. -/
def refresh (a : ActiveDays) (today : Date) :
    Except FetchError (List Int64) → ActiveDays × Except FetchError Unit
  | .ok days => (⟨some (days, today)⟩, .ok ())
  | .error e => (a, .error e)

/-- Takes an answer only if the days were not asked for on the given day; the flag says whether the
answer was needed. -/
def ensure (a : ActiveDays) (today : Date) (answer : Except FetchError (List Int64)) :
    ActiveDays × Except FetchError Unit × Bool :=
  if a.isCurrent today then (a, .ok (), false)
  else
    let (a, result) := a.refresh today answer
    (a, result, true)

theorem ensure_of_isCurrent {a : ActiveDays} {today : Date} (h : a.isCurrent today)
    (answer : Except FetchError (List Int64)) : a.ensure today answer = (a, .ok (), false) :=
  if_pos h

/-- A day that starts at a number of milliseconds can be picked. Before anything is known every day
can. -/
def isSelectable (a : ActiveDays) (startMs : Int) : Bool :=
  match a.loaded with
  | none => true
  | some (days, _) => days.any (·.toInt = startMs)

/-- A calendar day can be picked. One without a midnight cannot. -/
def isDaySelectable (a : ActiveDays) (z : Zone) (d : Date) : Bool :=
  match z.midnight? d with
  | some i => a.isSelectable i.millis
  | none => false

end ActiveDays

end Daybook
