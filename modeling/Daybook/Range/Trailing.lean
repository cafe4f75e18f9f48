import Daybook.Range.Basic

/-! The trailing windows of a selection, such as its last week, and what they make of its layout. -/

namespace Daybook

/-- The lengths of trailing windows that the viewer knows. -/
inductive Window
  | threeDays
  | week
  | twoWeeks
  | month
  | twoMonths
  | threeMonths
  | halfYear
  | year
deriving DecidableEq, Repr

namespace Window

def days : Window → Nat
  | threeDays => 3
  | week => 7
  | twoWeeks => 14
  | month => 30
  | twoMonths => 60
  | threeMonths => 90
  | halfYear => 180
  | year => 365

def label : Window → String
  | threeDays => "Last 3 days"
  | week => "Last week"
  | twoWeeks => "Last 2 weeks"
  | month => "Last month"
  | twoMonths => "Last 2 months"
  | threeMonths => "Last 3 months"
  | halfYear => "Last half of year"
  | year => "Last year"

/-- All windows, shortest first. -/
def catalog : List Window :=
  [threeDays, week, twoWeeks, month, twoMonths, threeMonths, halfYear, year]

end Window

namespace Range

/-- The part of a range that a window shows: it ends where the range ends and starts the window's
days before, at the same local time. -/
def tail? (z : Zone) (r : Range) (w : Window) : Option Range :=
  (z.daysBefore? r.stop w.days).map (⟨·, r.stop⟩)

/-- The windows that are no longer than the range and whose start exists, shortest first. -/
def trailing (z : Zone) (r : Range) : List (Window × Range) :=
  (Window.catalog.filter fun w => (w.days : Int) ≤ r.spanDays z).filterMap fun w =>
    (r.tail? z w).map (w, ·)

end Range

/-- How a selection is laid out. -/
inductive Layout
  /-- One day, with its timeline. -/
  | singleDay
  /-- Several days, with a pie for each trailing window. -/
  | windows (parts : List (Window × Range))

def Range.layout (z : Zone) (r : Range) : Layout :=
  if r.spanDays z = 0 then .singleDay else .windows (r.trailing z)

end Daybook
