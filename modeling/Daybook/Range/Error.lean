import Daybook.Calendar.Text

/-! Why a pair of endpoints is no selection. -/

namespace Daybook

inductive Endpoint
  | start
  | stop
deriving DecidableEq, Repr

/-- The word for the endpoint in messages. -/
def Endpoint.name : Endpoint → String
  | start => "from"
  | stop => "to"

inductive RangeError
  /-- An endpoint is not given. -/
  | missing (endpoint : Endpoint)
  /-- An endpoint is no date, no timestamp or lies outside the calendar. -/
  | unreadable (endpoint : Endpoint) (text : String)
  /-- The range starts after it ends; both ends in milliseconds. -/
  | reversed (startMs stopMs : Int)
  /-- The clocks of the zone skip midnight on the day. -/
  | noMidnight (date : Date)
  /-- The calendar ends with the day. -/
  | lastDay (date : Date)
deriving DecidableEq

def RangeError.message : RangeError → String
  | missing endpoint => s!"range is missing its `{endpoint.name}` endpoint"
  | unreadable endpoint text => s!"cannot parse `{text}` as the `{endpoint.name}` endpoint"
  | reversed startMs stopMs => s!"range starts after it ends ({startMs} > {stopMs})"
  | noMidnight date =>
    "local midnight does not exist on " ++ String.ofList date.text
  | lastDay date => "no calendar day follows " ++ String.ofList date.text

end Daybook
