import Daybook.Range.Error
import Daybook.Wire.Record

/-! Why a fetch has no data to show. -/

namespace Daybook

/-- What is wrong with a reply that cannot be understood. -/
inductive Fault
  /-- The reply claims success and has no data. -/
  | missingData
  | row (e : RowError)
  /-- A reason given by whoever answers. -/
  | stated (reason : String)
  /-- The text is no JSON, or has the wrong shape. This is all that is kept of such a fault: what a JSON
  reader would say about it, and about the place where it met it, is not modelled. -/
  | shape
deriving DecidableEq, Repr

/-- What there is to say about a fault. For a wrong shape it is a text that stands for all the texts of a
JSON reader. -/
def Fault.message : Fault → String
  | missingData => "missing data"
  | row e => e.message
  | stated reason => reason
  | shape => "unexpected content"

inductive FetchError
  /-- The request or its answer was lost. -/
  | transport (reason : String)
  /-- The bridge answered with an error code. -/
  | refused (code : String)
  | malformed (fault : Fault)
  /-- The range has no bounds, so nothing was requested. -/
  | range (e : RangeError)
deriving DecidableEq

def FetchError.message : FetchError → String
  | transport reason => s!"request failed: {reason}"
  | refused code => s!"backend reported `{code}`"
  | malformed fault => s!"malformed response: {fault.message}"
  | range e => e.message

/-- The fault of a decoder that stopped, with a row error or without a reason. -/
def Fault.ofDecoder : Option RowError → Fault
  | some e => row e
  | none => shape

end Daybook
