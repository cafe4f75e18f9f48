import Daybook.Number.RealText
import Daybook.Table.Numeric

/-! The table of activities: its cells, its rows and what a column does to the values that are put
into it. -/

namespace Daybook.Table

inductive Cell
  | null
  | integer (n : Int64)
  | real (x : Real)
  | text (t : String)
  | blob (bytes : List UInt8)
deriving DecidableEq, Repr

/-- A row of the table. -/
structure Row where
  start : Cell
  stop : Cell
  pid : Cell
  path : Cell
  title : Cell
deriving DecidableEq, Repr

/-- The types of the columns. -/
inductive Schema
  /-- Three columns of integers, two of texts, none of which may be null. -/
  | strict
  /-- Columns that take every value as it is. -/
  | loose
deriving DecidableEq, Repr

namespace Cell

/-- A value in a column of integers. Numbers in texts and whole reals become integers. -/
def inIntegerColumn : Cell → Cell
  | real x =>
    match x.toInt64? with
    | some n => integer n
    | none => real x
  | text t =>
    let n := NumericText.ofText t.toList
    if n.isNumber then
      match (if n.isPlain then int64? n.wholeValue else none) with
      | some value => integer value
      | none =>
        match n.real.toInt64? with
        | some value => integer value
        | none => real n.real
    else text t
  | cell => cell

/-- A value in a column of texts. -/
def inTextColumn : Cell → Cell
  | integer n => text (String.ofList (Text.signed n.toInt))
  | real x => text (String.ofList x.text)
  | cell => cell

end Cell

namespace Row

def cells (r : Row) : List Cell :=
  [r.start, r.stop, r.pid, r.path, r.title]

/-- The row as the table keeps it, unless a column refuses its value. -/
def store? (s : Schema) (r : Row) : Option Row :=
  match s with
  | .loose => some r
  | .strict =>
    if .null ∈ r.cells then none
    else some ⟨r.start.inIntegerColumn, r.stop.inIntegerColumn, r.pid.inIntegerColumn,
      r.path.inTextColumn, r.title.inTextColumn⟩

end Row

end Daybook.Table
