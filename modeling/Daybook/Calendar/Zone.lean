import Daybook.Calendar.Instant

/-! Time zones: which offset from UTC is in force at an instant, and which instants carry a given
local time. There may be none, one or several. -/

namespace Daybook

/-- Seconds east of UTC, less than a day either way. -/
structure Offset where
  seconds : Int
  gt : -86400 < seconds
  lt : seconds < 86400
deriving DecidableEq

namespace Offset

def of? (seconds : Int) : Option Offset :=
  if h : -86400 < seconds ∧ seconds < 86400 then some ⟨seconds, h.1, h.2⟩ else none

def utc : Offset := ⟨0, by decide, by decide⟩

end Offset

/-- An offset that holds from the beginning, and the UTC seconds at which another one takes over. -/
structure Zone where
  base : Offset
  transitions : List (Int × Offset)
deriving DecidableEq

namespace Zone

def fixed (offset : Offset) : Zone := ⟨offset, []⟩

def utc : Zone := fixed .utc

/-- The offset in force at a UTC second: that of the last transition at or before it. -/
def offsetAt (z : Zone) (second : Int) : Int :=
  (z.transitions.foldl (fun o t => if t.1 ≤ second then t.2 else o) z.base).seconds

/-- The local second that a clock in the zone shows at a UTC second. -/
def toLocal (z : Zone) (second : Int) : Int :=
  second + z.offsetAt second

/-- The local calendar day at an instant. Less than a day from an end of the calendar a local clock may
be past that end. There is no calendar day then and nothing that a caller could rely on; the number just
goes on. -/
def dateAt (z : Zone) (i : Instant) : Date :=
  ⟨z.toLocal i.second / daySeconds⟩

/-- All offsets that the zone ever uses. -/
def offsets (z : Zone) : List Int :=
  z.base.seconds :: z.transitions.map fun t => t.2.seconds

/-- The UTC seconds at which a clock in the zone shows the local second. -/
def occurrences (z : Zone) (localSecond : Int) : List Int :=
  (z.offsets.map (localSecond - ·)).filter fun second => z.toLocal second = localSecond

@[simp]
theorem offsetAt_fixed (o : Offset) (second : Int) : (fixed o).offsetAt second = o.seconds := rfl

@[simp]
theorem toLocal_fixed (o : Offset) (second : Int) : (fixed o).toLocal second = second + o.seconds :=
  rfl

theorem offsetAt_mem_offsets (z : Zone) (second : Int) : z.offsetAt second ∈ z.offsets := by
  obtain ⟨base, transitions⟩ := z
  simp only [offsetAt, offsets]
  induction transitions generalizing base with
  | nil => simp
  | cons t rest ih =>
    rw [List.foldl_cons]
    split
    · have := ih t.2
      simp_all
    · have := ih base
      grind

/-- The occurrences of a local second are all the seconds that show it. -/
theorem mem_occurrences {z : Zone} {localSecond second : Int} :
    second ∈ z.occurrences localSecond ↔ z.toLocal second = localSecond := by
  constructor
  · intro h
    simpa [occurrences] using (List.mem_filter.1 h).2
  · intro h
    refine List.mem_filter.2 ⟨List.mem_map.2 ⟨_, z.offsetAt_mem_offsets second, ?_⟩, ?_⟩
    · rw [← h, toLocal]
      omega
    · simpa using h

/-- The occurrences of a local second, or none when one of them lies outside the calendar. -/
def candidates (z : Zone) (localSecond : Int) : List Int :=
  let found := z.occurrences localSecond
  if found.all fun second => InCalendar second then found else []

/-- The first instant at which a clock in the zone shows the local second. -/
def earliest? (z : Zone) (localSecond : Int) (nano : Nat) : Option Instant :=
  (z.candidates localSecond).min?.bind fun second => Instant.of? second nano

/-- The instant at which a clock in the zone shows the local second, if there is just one. -/
def only? (z : Zone) (localSecond : Int) (nano : Nat) : Option Instant :=
  match z.candidates localSecond with
  | [] => none
  | second :: others =>
    if others.all (· = second) then Instant.of? second nano else none

/-- The start of a local day. Where local midnight comes twice it is the first one. -/
def midnight? (z : Zone) (d : Date) : Option Instant :=
  z.earliest? (d.number * daySeconds) 0

/-- The same local time of day some days earlier, if it came exactly once on that day. -/
def daysBefore? (z : Zone) (i : Instant) (days : Nat) : Option Instant :=
  z.only? (z.toLocal i.second - days * daySeconds) i.nano

end Zone

end Daybook
