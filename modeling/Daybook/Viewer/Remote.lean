import Daybook.Bridge.Answer
import Daybook.Fetch.Source
import Daybook.Http.Url
import Daybook.Net.Address

/-! The bridge as a source of data, reached over a network. -/

namespace Daybook

namespace Http

/-- A text is sent as its bytes. -/
instance octetsOfText : Coe String ByteArray :=
  ⟨String.toUTF8⟩

/-- What comes of a request. -/
inductive Exchange
  /-- There is no answer. -/
  | lost
  /-- The connection ends inside the answer. -/
  | cut
  | answered (status : Nat) (body : ByteArray)

/-- What comes of a request for each address. -/
abbrev Network := String → Exchange

/-- A network on which nobody answers. -/
def Network.unreachable : Network :=
  fun _ => .lost

end Http

/-- The network on which every address leads to a bridge. -/
def Bridge.network (b : Bridge) : Http.Network := fun url =>
  match Http.Url.target? url with
  | none => .lost
  | some target =>
    let response := b.answer ⟨"GET", .ofResource target.toList⟩
    .answered response.status (response.body.getD "")

/-- The network with nothing but a bridge on one socket. An address leads there only if it has the text
of the socket: names such as `localhost` are not looked up, and an address without a port leads
nowhere. -/
def Bridge.networkAt (b : Bridge) (socket : Net.Socket) : Http.Network := fun url =>
  if Http.Url.server? url = some socket.text then b.network url else .lost

/-- What can be asked of the bridge. -/
inductive Call
  | records (bounds : Bounds)
  | usages (bounds : Bounds)
  | activeDays
  | config
deriving DecidableEq, Repr

def Call.path : Call → String
  | records _ => "/select"
  | usages _ => "/duration_by_exe"
  | activeDays => "/active_dates"
  | config => "/config"

/-- The address of a bridge, and the local offset for which it cuts days. -/
structure Remote where
  base : String
  offsetMinutes : Int
deriving DecidableEq, Repr

namespace Remote

/-- Slashes at the end of the address do not count, and the offset is clamped. -/
def ofUrl (url : String) (offsetMinutes : Int) : Remote :=
  ⟨String.ofList (url.toList.reverse.dropWhile (· = '/')).reverse,
    Bridge.clampMinutes offsetMinutes⟩

/-- The zone in which the bridge cuts days. -/
def zone (r : Remote) : Zone :=
  .fixed ((Offset.of? (r.offsetMinutes * 60)).getD .utc)

def boundsQuery (b : Bounds) : List (String × String) :=
  [("from", String.ofList (Text.signed b.lower)), ("to", String.ofList (Text.signed b.upper))]

def query (r : Remote) : Call → List (String × String)
  | .records bounds => boundsQuery bounds
  | .usages bounds => boundsQuery bounds
  | .activeDays => [("tz_offset_minutes", String.ofList (Text.signed r.offsetMinutes))]
  | .config => []

/-- The address of a call. -/
def url (r : Remote) (call : Call) : String :=
  Http.Url.withQuery (r.base ++ call.path) (r.query call)

variable {α : Type}

/-- Makes a call and decodes the data in its answer. -/
def ask (r : Remote) (net : Http.Network) (call : Call) (d : Json.Decoder RowError α) :
    Except FetchError α :=
  match net (r.url call) with
  | .lost => .error (.transport s!"error sending request for url ({r.url call})")
  | .cut => .error (.malformed (.stated "error decoding response body"))
  | .answered status body => Envelope.openAnswer d status body

/-- Days in ascending order, each once. -/
def sortDays (days : List Int64) : List Int64 :=
  days.eraseDups.mergeSort fun d e => decide (d ≤ e)

def source (r : Remote) (net : Http.Network) : Source where
  records bounds := r.ask net (.records bounds) (.list Record.decode)
  usages bounds := r.ask net (.usages bounds) (.list Usage.decode)
  activeDays := sortDays <$> r.ask net .activeDays (.list .int64)
  config := r.ask net .config Config.decode

end Remote

end Daybook
