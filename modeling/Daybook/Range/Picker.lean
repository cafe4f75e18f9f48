import Daybook.Range.Basic

/-! What the calendar widget shows of a selection and makes of a pick. -/

namespace Daybook.Range

/-- The selection after a pick. A first day alone selects that day; an empty pick falls back to the
first day of the current selection. -/
def pick (current : Range) : Option Instant → Option Instant → Range
  | some start, some stop => ⟨start, stop⟩
  | some start, none => day start
  | none, _ => day current.start

/-- The line under the calendar: the selected day, or the first and the last one. -/
def footer (z : Zone) : Option Range → String
  | none => "Please pick the first day."
  | some r =>
    let first := z.dateAt r.start
    let last := z.dateAt r.stop
    if first = last then first.long else first.long ++ "–" ++ last.long

end Daybook.Range
