import Daybook.Calendar.Timestamp
import Daybook.Range.Basic

/-! Endpoints as they arrive: as text or as milliseconds, and perhaps not at all. -/

namespace Daybook

open Text

namespace Endpoint

/-- A date stands for its local midnight. What is no date has to be a timestamp. -/
def ofText (z : Zone) (e : Endpoint) (text : List Char) : Except RangeError Instant :=
  let text := trim text
  if text = [] then
    .error (.missing e)
  else
    match Date.read? text with
    | some date => z.midnight date
    | none =>
      match Timestamp.read? text with
      | some i => .ok i
      | none => .error (.unreadable e (String.ofList text))

def ofText? (z : Zone) (e : Endpoint) : Option String → Except RangeError Instant
  | none => .error (.missing e)
  | some text => ofText z e text.toList

def ofMillis? (e : Endpoint) : Option Int → Except RangeError Instant
  | none => .error (.missing e)
  | some ms =>
    match Instant.ofMillis? ms with
    | some i => .ok i
    | none => .error (.unreadable e (String.ofList (signed ms)))

end Endpoint

namespace Range

/-- A range from two texts. The first endpoint is looked at first. -/
def ofTexts (z : Zone) (start stop : Option String) : Except RangeError Range := do
  let start ← Endpoint.start.ofText? z start
  let stop ← Endpoint.stop.ofText? z stop
  return ⟨start, stop⟩

/-- A range from two numbers of milliseconds. The first endpoint is looked at first. -/
def ofMillis (start stop : Option Int) : Except RangeError Range := do
  let start ← Endpoint.start.ofMillis? start
  let stop ← Endpoint.stop.ofMillis? stop
  return ⟨start, stop⟩

end Range

end Daybook
