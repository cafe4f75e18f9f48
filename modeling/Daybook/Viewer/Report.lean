import Daybook.Activity.Breakdown
import Daybook.Activity.Timeline
import Daybook.Calendar.Zone
import Daybook.Number.Binary
import Daybook.View.Basic

/-! What the viewer prints: pies and timelines as lines of text. -/

namespace Daybook.Report

/-- A share in percent with one place. Amount, product and quotient are rounded to 53 bits each. -/
def percentText (amount total : Int) : String :=
  if total ≤ 0 then "0.0"
  else
    let double := Binary.Format.double
    let product := double.mul (double.ofNat amount.natAbs) (double.ofNat 100)
    let tenths := (double.div product (double.ofNat total.natAbs)).tenths
    let digits := String.ofList (Text.digitsOf (tenths / 10) ++ '.' :: Text.digitsOf (tenths % 10))
    if amount < 0 then "-" ++ digits else digits

def sliceLine (total : Int) (s : Slice) : String :=
  "  " ++ Text.padLeft 5 (percentText s.total total) ++ "%  " ++
    Text.padRight 12 (Duration.text s.total) ++ " " ++ s.name

/-- The lines of a pie. An empty line ends it, whatever there is to show. -/
def pieLines (label : String) (state : ViewState Breakdown) : List String :=
  (match state.picture Breakdown.isEmpty with
    | .nothing => []
    | .progress => [label ++ ": loading…"]
    | .error e => [label ++ ": error: " ++ e.message]
    | .noData => [label ++ ": No data"]
    | .data pie => (label ++ ": " ++ pie.title) :: pie.slices.map (sliceLine pie.total)) ++ [""]

/-- The local time of day, if the calendar has the instant. -/
def clockText (z : Zone) (ms : Int64) : String :=
  match Instant.ofMillis? ms.toInt with
  | none => "??:??:??"
  | some i =>
    let second := (z.toLocal i.second % daySeconds).toNat
    String.ofList (Text.zeroPadded 2 (second / 3600) ++ ':' ::
      Text.zeroPadded 2 (second / 60 % 60) ++ ':' :: Text.zeroPadded 2 (second % 60))

def barLine (z : Zone) (b : Bar) : String :=
  "  " ++ clockText z b.start ++ "–" ++ clockText z b.stop ++ "  " ++ b.color ++ " " ++
    Text.padRight 20 b.name ++ " " ++ b.title

/-- The lines of a timeline. -/
def timelineLines (z : Zone) (state : ViewState (List Bar)) : List String :=
  match state.picture List.isEmpty with
  | .nothing => []
  | .progress => ["Timeline: loading…"]
  | .error e => ["Timeline: error: " ++ e.message]
  | .noData => ["Timeline: No data"]
  | .data bars => "Timeline" :: bars.map (barLine z)

/-- Lines as a text, each with its end. -/
def unlines (lines : List String) : String :=
  String.join (lines.map (· ++ "\n"))

end Daybook.Report
