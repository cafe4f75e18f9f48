import Daybook.Activity.Record
import Daybook.Json.Decode
import Daybook.Json.Value

/-! Records and usages on the wire: a record is the row `[start, stop, pid, path, title]`, a usage is
the pair `[path, amount]`. -/

namespace Daybook

open Json

/-- What is wrong with a row. -/
inductive RowError
  | arity (found : Nat)
  | notInteger (index : Nat)
  | notString (index : Nat)
deriving DecidableEq, Repr

def RowError.message : RowError → String
  | arity found => s!"activity row has {found} fields, expected 5"
  | notInteger index => s!"activity row field {index} must be an integer"
  | notString index => s!"activity row field {index} must be a string"

namespace Record

def toJson (r : Record) : Json :=
  .array [.ofInt64 r.start, .ofInt64 r.stop, .ofInt64 r.pid, .string r.path, .string r.title]

def integerField (index : Nat) : Reading → Except RowError Int64
  | .number n =>
    match n.toInt64? with
    | some value => .ok value
    | none => .error (.notInteger index)
  | _ => .error (.notInteger index)

def stringField (index : Nat) : Reading → Except RowError String
  | .string (some text) => .ok text
  | _ => .error (.notString index)

/-- A row has five fields; of several wrong ones the first is reported. -/
def ofFields : List Reading → Except RowError Record
  | [start, stop, pid, path, title] => do
    let start ← integerField 0 start
    let stop ← integerField 1 stop
    let pid ← integerField 2 pid
    let path ← stringField 3 path
    let title ← stringField 4 title
    return ⟨start, stop, pid, path, title⟩
  | fields => .error (.arity fields.length)

/-- The row has to be a sound array before its fields are looked at. -/
def decode : Decoder RowError Record
  | room, .array items closed =>
    if Reading.isSound room (.array items closed) then (ofFields items).mapError some
    else Decoder.refuse
  | _, _ => Decoder.refuse

end Record

namespace Usage

def toJson (u : Usage) : Json :=
  .array [.string u.path, .ofInt64 u.amount]

def decode : Decoder RowError Usage
  | room, .array items closed =>
    if room = 0 then Decoder.refuse
    else do
      let path ← Decoder.item Decoder.string (room - 1) items 0
      let amount ← Decoder.item Decoder.int64 (room - 1) items 1
      if items.length = 2 ∧ closed then return ⟨path, amount⟩ else Decoder.refuse
  | _, _ => Decoder.refuse

end Usage

end Daybook
