import Daybook.Activity.Breakdown
import Daybook.Activity.Timeline
import Daybook.Range.Trailing

/-! The panes of the dashboard: the pie of the whole selection, the timeline of a single day and a pie
for each trailing window. -/

namespace Daybook

inductive Pane
  | summary
  | timeline
  | window (w : Window)
deriving DecidableEq, Repr

/-- All panes, in the order in which their data is requested. -/
def Pane.all : List Pane :=
  summary :: timeline :: Window.catalog.map window

/-- Something for every pane. -/
structure Panes (β : Type) where
  summary : β
  timeline : β
  threeDays : β
  week : β
  twoWeeks : β
  month : β
  twoMonths : β
  threeMonths : β
  halfYear : β
  year : β

namespace Panes

variable {β : Type}

def get (panes : Panes β) : Pane → β
  | .summary => panes.summary
  | .timeline => panes.timeline
  | .window .threeDays => panes.threeDays
  | .window .week => panes.week
  | .window .twoWeeks => panes.twoWeeks
  | .window .month => panes.month
  | .window .twoMonths => panes.twoMonths
  | .window .threeMonths => panes.threeMonths
  | .window .halfYear => panes.halfYear
  | .window .year => panes.year

def ofFn (f : Pane → β) : Panes β :=
  ⟨f .summary, f .timeline, f (.window .threeDays), f (.window .week), f (.window .twoWeeks),
    f (.window .month), f (.window .twoMonths), f (.window .threeMonths), f (.window .halfYear),
    f (.window .year)⟩

@[simp]
theorem get_ofFn (f : Pane → β) (p : Pane) : (ofFn f).get p = f p := by
  cases p with
  | summary => rfl
  | timeline => rfl
  | window w => cases w <;> rfl

/-- Changes what one pane has. -/
def update (panes : Panes β) (p : Pane) (f : β → β) : Panes β :=
  ofFn fun q => if q = p then f (panes.get q) else panes.get q

@[simp]
theorem get_update (panes : Panes β) (p q : Pane) (f : β → β) :
    (panes.update p f).get q = if q = p then f (panes.get q) else panes.get q := by
  simp [update]

end Panes

/-- What a pane draws. -/
inductive Chart
  | pie (breakdown : Breakdown)
  | timeline (bars : List Bar)
deriving DecidableEq

def Chart.isEmpty : Chart → Bool
  | pie breakdown => breakdown.isEmpty
  | timeline bars => bars.isEmpty

/-- The breakdown of a pie. -/
def Chart.breakdown : Chart → Breakdown
  | pie breakdown => breakdown
  | timeline _ => ⟨[]⟩

/-- The bars of a timeline. -/
def Chart.bars : Chart → List Bar
  | pie _ => []
  | timeline bars => bars

/-- The part of a selection that a pane shows, if it shows any. -/
def Range.part (z : Zone) (r : Range) : Pane → Option Range
  | .summary => some r
  | .timeline =>
    match r.layout z with
    | .singleDay => some r
    | .windows _ => none
  | .window w =>
    match r.layout z with
    | .singleDay => none
    | .windows parts => (parts.find? (·.1 = w)).map (·.2)

end Daybook
