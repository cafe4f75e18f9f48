/-! Days of the proleptic Gregorian calendar, from -262143-01-01 to 262142-12-31.
A day is counted from 1970-01-01; year, month and day of the month are read off that count. -/

namespace Daybook

/-- A calendar day, as the number of days after 1970-01-01. -/
structure Date where
  number : Int
deriving DecidableEq, Repr, Inhabited

/-- A day as people write it. -/
structure Civil where
  year : Int
  month : Nat
  day : Nat
deriving DecidableEq, Repr

namespace Civil

def isLeap (year : Int) : Bool :=
  year % 4 = 0 && (year % 100 ≠ 0 || year % 400 = 0)

/-- The lengths of the months of a year, January first. -/
def monthLengths (year : Int) : List Nat :=
  [31, if isLeap year then 29 else 28, 31, 30, 31, 30, 31, 31, 30, 31, 30, 31]

/-- The days in a row of months. -/
def daysOf (lengths : List Nat) : Nat :=
  lengths.foldr (· + ·) 0

/-- The days from 1970-01-01 to the first of January of `year`. -/
def yearStart (year : Int) : Int :=
  365 * (year - 1) + (year - 1) / 4 - (year - 1) / 100 + (year - 1) / 400 - 719162

/-- A month from 1 to 12 and a day that this month has. -/
def Valid (c : Civil) : Prop :=
  1 ≤ c.month ∧ 1 ≤ c.day ∧ ∃ length ∈ (monthLengths c.year)[c.month - 1]?, c.day ≤ length

instance (c : Civil) : Decidable c.Valid :=
  inferInstanceAs (Decidable (_ ∧ _ ∧ _))

/-- The days from the first of January of the year to the day. -/
def dayOfYear (c : Civil) : Nat :=
  daysOf ((monthLengths c.year).take (c.month - 1)) + (c.day - 1)

/-- The year that a day number lies in: a first guess, and one step either way. -/
def yearOf (number : Int) : Int :=
  let guess := (number + 719162) * 400 / 146097 + 1
  if number < yearStart guess then guess - 1
  else if yearStart (guess + 1) ≤ number then guess + 1
  else guess

/-- Month and day of the month for a number of days after the start of the first listed month. -/
def monthAndDay : List Nat → Nat → Nat × Nat
  | [], days => (1, days + 1)
  | length :: rest, days =>
    if days < length then (1, days + 1)
    else
      let (month, day) := monthAndDay rest (days - length)
      (month + 1, day)

end Civil

namespace Date

/-- The number of -262143-01-01. -/
def firstNumber : Int := -96465292

/-- The number of 262142-12-31. -/
def lastNumber : Int := 95026236

def first : Date := ⟨firstNumber⟩

def last : Date := ⟨lastNumber⟩

/-- The day that a year, a month and a day of the month name. -/
def ofCivil (c : Civil) : Date :=
  ⟨Civil.yearStart c.year + c.dayOfYear⟩

/-- The day that a year, a month and a day of the month name, if the calendar has it. -/
def ofCivil? (c : Civil) : Option Date :=
  if c.Valid ∧ firstNumber ≤ (ofCivil c).number ∧ (ofCivil c).number ≤ lastNumber then
    some (ofCivil c)
  else
    none

/-- Year, month and day of the month. -/
def civil (d : Date) : Civil :=
  let year := Civil.yearOf d.number
  let (month, day) :=
    Civil.monthAndDay (Civil.monthLengths year) (d.number - Civil.yearStart year).toNat
  ⟨year, month, day⟩

/-- The following day, if the calendar has one. -/
def succ? (d : Date) : Option Date :=
  if d.number < lastNumber then some ⟨d.number + 1⟩ else none

/-- Whole days from `d` to `e`. -/
def daysTo (d e : Date) : Int :=
  e.number - d.number

end Date

end Daybook
