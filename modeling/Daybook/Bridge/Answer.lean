import Daybook.Http.Form
import Daybook.Http.Message
import Daybook.Table.Query
import Daybook.Wire.Config
import Daybook.Wire.Envelope

/-! The bridge: it answers requests for activities from a table, and for the configuration. -/

namespace Daybook

/-- What the bridge serves. There may be no table in the database. -/
structure Bridge where
  table : Option (List Table.Row)
  config : Config

namespace Bridge

open Http

inductive Route
  | health
  | select
  | durationByExe
  | activeDates
  | config
deriving DecidableEq, Repr

/-- Paths are compared as they are, without decoding. -/
def Route.ofPath? (path : String) : Option Route :=
  if path = "/health" then some health
  else if path = "/select" then some select
  else if path = "/duration_by_exe" then some durationByExe
  else if path = "/active_dates" then some activeDates
  else if path = "/config" then some config
  else none

/-- The outcome of a request on a known path. -/
inductive Outcome
  | data (value : Json)
  /-- The query text cannot be read. -/
  | badQuery
  | invalidRange
  | dbError

def Outcome.status : Outcome → Nat
  | data _ => 200
  | badQuery => 400
  | invalidRange => 400
  | dbError => 500

def Outcome.body : Outcome → Option String
  | data value => some (Envelope.success value).text
  | badQuery => none
  | invalidRange => some (Envelope.failure "invalid_range").text
  | dbError => some (Envelope.failure "db_error").text

/-- The answer of a database query, if it succeeds. -/
def ofQuery {α : Type} (toJson : List α → Json) : Option (List α) → Outcome
  | some rows => .data (toJson rows)
  | none => .dbError

/-- Bounds from a query: both have to be there, and in order. -/
def withBounds (query : List Char) (answer : Bounds → Outcome) : Outcome :=
  let pairs := Form.pairs query
  match Form.number? limit64 "from" pairs, Form.number? limit64 "to" pairs with
  | some (some lower), some (some upper) =>
    if lower ≤ upper then answer ⟨lower, upper⟩ else .invalidRange
  | some _, some _ => .invalidRange
  | _, _ => .badQuery

/-- Minutes east of UTC, 14 hours at most either way. -/
def clampMinutes (minutes : Int) : Int :=
  max (-840) (min 840 minutes)

def healthJson : Json :=
  .object [("service", .string "trackme_bridge"), ("version", .string "0.1.0")]

def recordsJson (records : List Record) : Json :=
  .array (records.map Record.toJson)

def usagesJson (usages : List Usage) : Json :=
  .array (usages.map Usage.toJson)

def daysJson (days : List Int64) : Json :=
  .array (days.map Json.ofInt64)

/-- The outcome of a request for a route. -/
def outcome (b : Bridge) (query : List Char) : Route → Outcome
  | .health => .data healthJson
  | .select => withBounds query fun bounds =>
    ofQuery recordsJson (b.table.bind (Table.records? bounds))
  | .durationByExe => withBounds query fun bounds =>
    ofQuery usagesJson (b.table.bind (Table.usages? bounds))
  | .activeDates =>
    match Form.number? limit32 "tz_offset_minutes" (Form.pairs query) with
    | some minutes =>
      ofQuery daysJson
        (b.table.bind (Table.activeDays? (clampMinutes (minutes.getD 0) * 60000)))
    | none => .badQuery
  | .config => .data b.config.toJson

/-- The header that every answer carries. -/
def anyOrigin : String × String :=
  ("access-control-allow-origin", "*")

/-- The header that names the methods of a known path. -/
def allowHeader : String × String :=
  ("allow", "GET,HEAD")

/-- A question for permission is always granted. -/
def preflight (known : Bool) : Response :=
  ⟨200, anyOrigin :: ("access-control-allow-methods", "GET,OPTIONS") ::
    ("access-control-allow-headers", "content-type") :: if known then [allowHeader] else [], none⟩

def answer (b : Bridge) (r : Request) : Response :=
  let route := Route.ofPath? r.target.path
  if r.method = "OPTIONS" then preflight route.isSome
  else
    match route with
    | none => ⟨404, [anyOrigin], none⟩
    | some route =>
      let outcome := b.outcome r.target.query route
      if r.method = "GET" then ⟨outcome.status, [anyOrigin], outcome.body⟩
      else if r.method = "HEAD" then ⟨outcome.status, [anyOrigin], none⟩
      else ⟨405, [anyOrigin, allowHeader], none⟩

end Bridge

end Daybook
