import Daybook.Text.Blank
import Daybook.Text.Whole
import Daybook.Calendar.Date
import Daybook.Calendar.Timestamp
import Daybook.Range.Endpoint
import Daybook.Range.Trailing
import Daybook.Range.Picker
import Daybook.Activity.Breakdown
import Daybook.Activity.Timeline
import Daybook.Json.Value
import Daybook.Wire.Record
import Daybook.Wire.Envelope
import Daybook.Config.File
import Daybook.Table.Query
import Daybook.Bridge.Answer
import Daybook.Bridge.Listen
import Daybook.View.Feed
import Daybook.Fetch.Source
import Daybook.Dashboard.Session
import Daybook.Bridge.Launch
import Daybook.Viewer.Remote
import Daybook.Viewer.Report
import Daybook.Viewer.Program
import Daybook.Main
import Daybook.Proofs.View.Newest
import Daybook.Proofs.Dashboard.Run
import Daybook.Proofs.Dashboard.History
import Daybook.Proofs.Json.RoundTrip
import Daybook.Proofs.Wire.RoundTrip
import Daybook.Proofs.Http.Query
import Daybook.Proofs.Http.Address
import Daybook.Proofs.Viewer.Remote
import Daybook.Proofs.Activity.Breakdown
import Daybook.Proofs.Table.Queries
import Daybook.Proofs.Range.FixedZone
import Daybook.Proofs.Viewer.Days
import Daybook.Proofs.Activity.Ranking
import Daybook.Proofs.Table.Grouping
import Daybook.Proofs.Table.ActiveDays
import Daybook.Proofs.Viewer.Selectable
import Daybook.Proofs.Table.Selected
import Daybook.Proofs.Viewer.Arrival
import Daybook.Proofs.Viewer.Output
import Daybook.Proofs.Range.Offsets
import Daybook.Proofs.Dashboard.Issued
import Daybook.Proofs.Viewer.Loads
import Daybook.Proofs.Range.WindowStarts
import Daybook.Proofs.Range.Invalid
import Daybook.Proofs.Viewer.Refusal
import Daybook.Proofs.Bridge.Answers
import Daybook.Proofs.Range.Midnight
import Daybook.Proofs.Table.Records
import Daybook.Proofs.Table.Usages
import Daybook.Proofs.Table.Adjacent
import Daybook.Proofs.Bridge.Selection
import Daybook.Proofs.Json.Grammar
import Daybook.Proofs.Wire.Rows
import Daybook.Proofs.Wire.Envelope
import Daybook.Proofs.Wire.Utf8
import Daybook.Proofs.Viewer.Configuration
import Daybook.Proofs.Http.Spelling
import Daybook.Proofs.Bridge.Bounded
import Daybook.Proofs.Activity.Path
import Daybook.Proofs.Activity.Resumming
import Daybook.Proofs.Range.Endpoint
import Daybook.Proofs.Bridge.Listen
import Daybook.Proofs.Activity.Duration
import Daybook.Proofs.Activity.Palette
import Daybook.Proofs.Range.Footer
import Daybook.Proofs.Viewer.Offered
import Daybook.Proofs.Wire.Utf8
