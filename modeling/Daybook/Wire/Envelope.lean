import Daybook.Fetch.Error
import Daybook.Json.Octets
import Daybook.Json.Value

/-! The envelope around every answer of the bridge: an object with `ok` and either `data` or `error`.
The reader also takes the array of these three fields. -/

namespace Daybook

open Json

structure Envelope (α : Type) where
  okay : Bool
  data : Option α
  error : Option String

namespace Envelope

/-- The envelope of an answer with data. -/
def success (data : Json) : Json :=
  .object [("ok", .bool true), ("data", data)]

/-- The envelope of an error code. -/
def failure (code : String) : Json :=
  .object [("ok", .bool false), ("error", .string code)]

variable {ε α : Type}

/-- The members met so far. -/
structure Seen (α : Type) where
  okay : Option Bool := none
  data : Option (Option α) := none
  error : Option (Option String) := none

def member (d : Decoder ε α) (room : Nat) (seen : Seen α) (key : String) (value : Reading) :
    Except (Option ε) (Seen α) :=
  if key = "ok" then
    (fun okay => { seen with okay }) <$> Decoder.once Decoder.bool room seen.okay value
  else if key = "data" then
    (fun data => { seen with data }) <$> Decoder.once (Decoder.optional d) room seen.data value
  else if key = "error" then
    (fun error => { seen with error }) <$>
      Decoder.once (Decoder.optional Decoder.string) room seen.error value
  else
    Decoder.ignore seen value

/-- `ok` has to be there; `data` and `error` may be absent from an object, not from an array. -/
def decode (d : Decoder ε α) : Decoder ε (Envelope α)
  | room, .array items closed =>
    if room = 0 then Decoder.refuse
    else do
      let okay ← Decoder.item Decoder.bool (room - 1) items 0
      let data ← Decoder.item (Decoder.optional d) (room - 1) items 1
      let error ← Decoder.item (Decoder.optional Decoder.string) (room - 1) items 2
      if items.length = 3 ∧ closed then return ⟨okay, data, error⟩ else Decoder.refuse
  | room, reading => do
    let seen ← Decoder.members (member d) {} room reading
    match seen.okay with
    | some okay => return ⟨okay, seen.data.join, seen.error.join⟩
    | none => Decoder.refuse

/-- The error code in the body of a failed request, if it has one. -/
def errorCode? (body : ByteArray) : Option String :=
  match Decoder.run (decode (Decoder.anything (ε := RowError))) (charactersOf body) with
  | .ok envelope => envelope.error
  | .error _ => none

/-- Opens an answer. Only a status from 200 to 299 can bring data. -/
def openAnswer (d : Decoder RowError α) (status : Nat) (body : ByteArray) :
    Except FetchError α :=
  if status < 200 ∨ 300 ≤ status then
    .error (.refused ((errorCode? body).getD s!"http_{status}"))
  else
    match Decoder.run (decode d) (charactersOf body) with
    | .error reason => .error (.malformed (.ofDecoder reason))
    | .ok envelope =>
      if envelope.okay then
        match envelope.data with
        | some data => .ok data
        | none => .error (.malformed .missingData)
      else
        .error (.refused (envelope.error.getD "not_ok"))

end Envelope

end Daybook
