import Daybook.CommandLine.Programs
import Daybook.Dashboard.Session
import Daybook.Range.Endpoint
import Daybook.Viewer.Remote
import Daybook.Viewer.Report

/-! The viewer from its arguments to its output: it reads the range, asks for the active days, selects
the range on a dashboard and prints what the panes show once all their fetches have ended. -/

namespace Daybook.Viewer

open CommandLine

/-- The time of day and where. -/
structure Clock where
  now : Instant
  zone : Zone

def Clock.today (c : Clock) : Date :=
  c.zone.dateAt c.now

/-- Whole minutes east of UTC, rounded toward zero. -/
def Clock.offsetMinutes (c : Clock) : Int :=
  (c.zone.offsetAt c.now.second).tdiv 60

inductive Warning
  /-- Nothing is recorded on the first day of the range. -/
  | inactive (date : Date)
  /-- The active days cannot be loaded. -/
  | unavailable (e : FetchError)
deriving DecidableEq

def Warning.message : Warning → String
  | inactive date => "nothing recorded on " ++ String.ofList date.text
  | unavailable e => "active dates unavailable: " ++ e.message

/-- What a run of the viewer does that can be seen from outside. -/
structure Run where
  /-- The lines on standard output. -/
  lines : List String := []
  /-- The error that the run ends with. -/
  failure : Option FetchError := none
  warnings : List Warning := []
  /-- The calls to the bridge, in the order in which they are made. -/
  calls : List Call := []

/-- The text of standard output. -/
def Run.output (r : Run) : String :=
  Report.unlines r.lines

/-- The line on standard error that ends a run with an error. -/
def Run.complaint (r : Run) : Option String :=
  r.failure.map fun e => "Error: " ++ e.message

def Run.exitCode (r : Run) : UInt32 :=
  if r.failure.isSome then 1 else 0

/-- The range that the arguments ask for. It starts today unless they say otherwise, and ends on the
day on which it starts. -/
def range (args : ViewerArgs) (clock : Clock) : Except RangeError Range :=
  let start := args.start.getD (String.ofList clock.today.text)
  Range.ofTexts clock.zone (some start) (some (args.stop.getD start))

/-- The call that a request of a pane makes. -/
def callOf (r : PaneRequest) : Call :=
  match r.fetch.pane with
  | .timeline => .records r.bounds
  | _ => .usages r.bounds

/-- Answers everything that waits from a source. -/
def answerAll (source : Source) (s : Session) : Session :=
  (s.waiting.foldl (fun s (id, request) =>
    (s.answer id (source.chart request.bounds request.fetch.pane)).1) s).deliver

def pieOf (d : Dashboard) (p : Pane) : ViewState Breakdown :=
  (d.views.get p).state.map Chart.breakdown

/-- The lines for a dashboard: the footer, the pie of the selection, and then the timeline of its day
or the pies of its windows. -/
def report (d : Dashboard) : List String :=
  [d.footer, ""] ++ Report.pieLines "Selected range" (pieOf d .summary) ++
    match d.layout with
    | some .singleDay =>
      Report.timelineLines d.zone ((d.views.get .timeline).state.map Chart.bars)
    | some (.windows _) =>
      d.shownWindows.flatMap fun (w, _) => Report.pieLines w.label (pieOf d (.window w))
    | none => []

/-- What there is to say about the first day of a range, once the active days were asked for. -/
def warningsFor (days : ActiveDays) (zone : Zone) (first : Date) :
    Except FetchError Unit → List Warning
  | .error e => [.unavailable e]
  | .ok () => if days.isDaySelectable zone first then [] else [.inactive first]

/-- Prints the configuration. -/
def showConfig (source : Source) : Run :=
  match source.config with
  | .ok config => { lines := [config.toJson.pretty], calls := [.config] }
  | .error e => { failure := some e, calls := [.config] }

/-- Selects a range and prints the panes. -/
def showRange (clock : Clock) (remote : Remote) (source : Source) (range : Range) : Run :=
  let (days, result, _) := ActiveDays.ensure {} clock.today source.activeDays
  let warnings := warningsFor days remote.zone (clock.zone.dateAt range.start) result
  let session : Session := { dashboard := { zone := clock.zone, days } }
  match session.select range with
  | (_, .error e) => { failure := some (.range e), warnings, calls := [.activeDays] }
  | (session, .ok ()) =>
    let session := session.run
    { lines := report (answerAll source session).dashboard
      warnings
      calls := .activeDays :: session.requests.map callOf }

def run (args : ViewerArgs) (clock : Clock) (net : Http.Network) : Run :=
  match range args clock with
  | .error e => { failure := some (.range e) }
  | .ok range =>
    let remote := Remote.ofUrl args.bridgeUrl clock.offsetMinutes
    let source := remote.source net
    if args.showConfig then showConfig source
    else showRange clock remote source range

end Daybook.Viewer
