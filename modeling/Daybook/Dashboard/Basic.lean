import Daybook.Dashboard.Pane
import Daybook.Range.Picker
import Daybook.View.Basic
import Daybook.Viewer.ActiveDays

/-! The dashboard: one selection and a view for every pane, all of them pointed at their part of the
selection together. -/

namespace Daybook

structure Dashboard where
  zone : Zone
  range : Option Range := none
  layout : Option Layout := none
  views : Panes (View Range Chart) := .ofFn fun _ => {}
  days : ActiveDays := {}

/-- A fetch that a pane has issued. -/
structure PaneFetch where
  pane : Pane
  range : Range
  generation : Nat
deriving DecidableEq

namespace Dashboard

/-- Points every view at its part of a range. -/
def aim (d : Dashboard) (r : Range) (p : Pane) : View Range Chart × Option Nat :=
  (d.views.get p).point (r.part d.zone p)

/-- The fetches that pointing the views at a range issues. -/
def issues (d : Dashboard) (r : Range) : List PaneFetch :=
  Pane.all.filterMap fun p => do
    let part ← r.part d.zone p
    let generation ← (d.aim r p).2
    return ⟨p, part, generation⟩

/-- Makes a range the selection. A range without bounds is refused before anything is touched. -/
def select (d : Dashboard) (r : Range) : Except RangeError (Dashboard × List PaneFetch) := do
  let _ ← r.bounds d.zone
  return ({ d with
    range := some r
    layout := some (r.layout d.zone)
    views := .ofFn fun p => (d.aim r p).1 }, d.issues r)

/-- Selects what a pick makes of the current selection. The first pick of all needs a first day. -/
def pick (d : Dashboard) (start stop : Option Instant) :
    Except RangeError (Dashboard × List PaneFetch) :=
  match d.range, start with
  | some current, start => d.select (current.pick start stop)
  | none, some start => d.select ((Range.day start).pick (some start) stop)
  | none, none => .error (.missing .start)

/-- Gives the result of a fetch to the view that issued it. -/
def publish (d : Dashboard) (f : PaneFetch) (result : Except FetchError Chart) : Dashboard :=
  { d with views := d.views.update f.pane fun v => v.publish f.generation result }

def footer (d : Dashboard) : String :=
  Range.footer d.zone d.range

/-- The windows that show a part of the selection, shortest first. -/
def shownWindows (d : Dashboard) : List (Window × View Range Chart) :=
  (Window.catalog.map fun w => (w, d.views.get (.window w))).filter (·.2.active.isSome)

end Dashboard

end Daybook
