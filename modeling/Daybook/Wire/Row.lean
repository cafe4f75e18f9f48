import Daybook.Json.Decode
import Daybook.Table.Cell

/-! Rows of the table as JSON: arrays of five cells, each a number, a text or null. -/

namespace Daybook.Table

open Json

variable {ε : Type}

/-- A number that is no whole number of 64 bits is a real. -/
def Cell.decode : Decoder ε Cell
  | _, .null => .ok .null
  | _, .number n =>
    match n.toInt64? with
    | some value => .ok (.integer value)
    | none =>
      if n.overflows then Decoder.refuse else .ok (.real n.real)
  | _, .string (some t) => .ok (.text t)
  | _, _ => Decoder.refuse

def Row.decode : Decoder ε Row
  | room, .array items closed =>
    if room = 0 then Decoder.refuse
    else do
      let start ← Decoder.item Cell.decode (room - 1) items 0
      let stop ← Decoder.item Cell.decode (room - 1) items 1
      let pid ← Decoder.item Cell.decode (room - 1) items 2
      let path ← Decoder.item Cell.decode (room - 1) items 3
      let title ← Decoder.item Cell.decode (room - 1) items 4
      if items.length = 5 ∧ closed then return ⟨start, stop, pid, path, title⟩ else Decoder.refuse
  | _, _ => Decoder.refuse

/-- The rows that a table keeps of a text, if the text holds rows and no column refuses one. -/
def rows? (s : Schema) (text : String) : Option (List Row) := do
  let rows ← ((Decoder.list (Row.decode (ε := Empty))).run text.toList).toOption
  rows.mapM (Row.store? s)

end Daybook.Table
