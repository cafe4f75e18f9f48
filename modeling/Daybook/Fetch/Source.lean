import Daybook.Config.Basic
import Daybook.Dashboard.Pane
import Daybook.Fetch.Error

/-! Where the data comes from. -/

namespace Daybook

/-- The answers of a source, each a fixed function of what is asked. -/
structure Source where
  records (bounds : Bounds) : Except FetchError (List Record)
  usages (bounds : Bounds) : Except FetchError (List Usage)
  activeDays : Except FetchError (List Int64)
  config : Except FetchError Config

/-- The chart of a pane: the timeline is made from records, the pies from usages. -/
def Source.chart (s : Source) (bounds : Bounds) : Pane → Except FetchError Chart
  | .timeline => (fun records => .timeline (Daybook.timeline records)) <$> s.records bounds
  | _ => (fun usages => .pie (Breakdown.ofUsages usages)) <$> s.usages bounds

end Daybook
