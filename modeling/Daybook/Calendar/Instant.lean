import Daybook.Calendar.Date

/-! Points in time inside the calendar, in UTC. A leap second is the second before it with a
billion nanoseconds or more. -/

namespace Daybook

/-- The seconds of a day. -/
def daySeconds : Int := 86400

/-- The milliseconds of a day. -/
def dayMillis : Int := 86400000

/-- The second lies in the calendar as seen in UTC. -/
def InCalendar (second : Int) : Prop :=
  Date.firstNumber * daySeconds ≤ second ∧ second < (Date.lastNumber + 1) * daySeconds

instance (second : Int) : Decidable (InCalendar second) :=
  inferInstanceAs (Decidable (_ ∧ _))

/-- A second after 1970-01-01T00:00:00Z and the nanoseconds that have passed in it. -/
structure Instant where
  second : Int
  nano : Nat
  inCalendar : InCalendar second
  nano_lt : nano < 2000000000
deriving DecidableEq

namespace Instant

def of? (second : Int) (nano : Nat) : Option Instant :=
  if h : InCalendar second ∧ nano < 2000000000 then some ⟨second, nano, h.1, h.2⟩ else none

/-- Milliseconds after 1970-01-01T00:00:00Z, rounded down. -/
def millis (i : Instant) : Int :=
  i.second * 1000 + (i.nano / 1000000 : Nat)

def ofMillis? (ms : Int) : Option Instant :=
  of? (ms / 1000) ((ms % 1000).toNat * 1000000)

instance : LT Instant :=
  ⟨fun a b => a.second < b.second ∨ a.second = b.second ∧ a.nano < b.nano⟩

instance : LE Instant :=
  ⟨fun a b => a.second < b.second ∨ a.second = b.second ∧ a.nano ≤ b.nano⟩

instance (a b : Instant) : Decidable (a < b) :=
  inferInstanceAs (Decidable (_ ∨ _))

instance (a b : Instant) : Decidable (a ≤ b) :=
  inferInstanceAs (Decidable (_ ∨ _))

variable {a b : Instant}

theorem le_def : a ≤ b ↔ a.second < b.second ∨ a.second = b.second ∧ a.nano ≤ b.nano :=
  Iff.rfl

theorem lt_def : a < b ↔ a.second < b.second ∨ a.second = b.second ∧ a.nano < b.nano :=
  Iff.rfl

theorem not_lt : ¬b < a ↔ a ≤ b := by
  rw [le_def, lt_def]
  omega

end Instant

end Daybook
