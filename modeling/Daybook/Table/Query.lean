import Daybook.Activity.Record
import Daybook.Range.Basic
import Daybook.Table.Cell

/-! The three queries on the table of activities: the rows of a range, the time per executable in a
range, and the days that have any row. A query that meets a value of the wrong type fails as a whole. -/

namespace Daybook.Table

/-- The outcome of arithmetic on cells. -/
inductive Quantity
  | null
  | whole (n : Int64)
  | real (x : Real)
deriving DecidableEq, Repr

/-- A binary operation, on whole numbers and on reals. -/
structure Operation where
  onInts : Int → Int → Int
  onReals : Real → Real → Option Real

namespace Operation

def sum : Operation := ⟨(· + ·), Real.add?⟩

def difference : Operation := ⟨(· - ·), Real.sub?⟩

def product : Operation := ⟨(· * ·), Real.mul?⟩

/-- The quotient of whole numbers is rounded toward zero. -/
def quotient : Operation := ⟨Int.tdiv, Real.div?⟩

end Operation

namespace Quantity

/-- A whole number that does not fit 64 bits becomes a real. -/
def ofInt (n : Int) : Quantity :=
  match int64? n with
  | some n => whole n
  | none => real (.ofInt n)

/-- A real, or null where arithmetic has no result. -/
def ofReal? : Option Real → Quantity
  | some x => real x
  | none => null

/-- The number that characters begin with. -/
def ofChars (chars : List Char) : Quantity :=
  let n := NumericText.ofText chars
  if n.beginsReal then real n.real else ofInt n.wholeValue

/-- The number in a cell. A text counts as the number that it begins with, and bytes count as a text. -/
def ofCell : Cell → Quantity
  | .null => null
  | .integer n => whole n
  | .real x => real x
  | .text t => ofChars t.toList
  | .blob bytes => ofChars (bytes.map fun byte => Char.ofNat byte.toNat)

/-- Whole numbers whose result leaves 64 bits are reals from the start. -/
def combine (o : Operation) : Quantity → Quantity → Quantity
  | null, _ => null
  | _, null => null
  | whole m, whole n =>
    match int64? (o.onInts m.toInt n.toInt) with
    | some k => whole k
    | none => ofReal? (o.onReals (.ofInt m.toInt) (.ofInt n.toInt))
  | whole m, real y => ofReal? (o.onReals (.ofInt m.toInt) y)
  | real x, whole n => ofReal? (o.onReals x (.ofInt n.toInt))
  | real x, real y => ofReal? (o.onReals x y)

/-- The quantities are the same number, or both null. -/
def same : Quantity → Quantity → Bool
  | null, null => true
  | whole m, whole n => m = n
  | whole m, real y => y.equalsInt m.toInt
  | real x, whole n => x.equalsInt n.toInt
  | real x, real y => x.equals y
  | _, _ => false

/-- The whole number, if it is one. -/
def toInt64? : Quantity → Option Int64
  | whole n => some n
  | _ => none

/-- The sum of the quantities that are not null. It has to be whole all the way. -/
def sum? (quantities : List Quantity) : Option Int64 :=
  match quantities.filter (· ≠ null) with
  | [] => none
  | first :: rest => (rest.foldl (combine .sum) first).toInt64?

end Quantity

/-- The cell is a number in the bounds. -/
def Cell.within (b : Bounds) : Cell → Bool
  | .integer n => b.lower ≤ n.toInt && n.toInt < b.upper
  | .real x => x.atLeast b.lower && !x.atLeast b.upper
  | _ => false

def Cell.integer? : Cell → Option Int64
  | .integer n => some n
  | _ => none

def Cell.text? : Cell → Option String
  | .text t => some t
  | _ => none

/-- The row as a record, if all its cells have the right types. -/
def Row.record? (r : Row) : Option Record := do
  let start ← r.start.integer?
  let stop ← r.stop.integer?
  let pid ← r.pid.integer?
  let path ← r.path.text?
  let title ← r.title.text?
  return ⟨start, stop, pid, path, title⟩

/-- The rows whose start is in the bounds. -/
def selected (b : Bounds) (rows : List Row) : List Row :=
  rows.filter fun r => r.start.within b

/-- The records that start in the bounds, in the order of their starts. Equal starts keep the order
of the table. -/
def records? (b : Bounds) (rows : List Row) : Option (List Record) := do
  let records ← (selected b rows).mapM Row.record?
  return records.mergeSort fun r s => decide (r.start ≤ s.start)

/-- The length of the interval in a row. -/
def Row.length (r : Row) : Quantity :=
  Quantity.combine .difference (.ofCell r.stop) (.ofCell r.start)

/-- The order of texts by their bytes in UTF-8. -/
def bytesLe (s t : String) : Bool :=
  decide (s.toByteArray.data.toList ≤ t.toByteArray.data.toList)

/-- Larger amounts come first, and of equal ones the smaller path. -/
def usageLe (u v : Usage) : Bool :=
  decide (v.amount < u.amount) || (u.amount == v.amount && bytesLe u.path v.path)

/-- The usage of a path in the rows. -/
def usage? (rows : List Row) (path : String) : Option Usage := do
  let amount ← Quantity.sum? ((rows.filter fun r => r.path.text? = some path).map Row.length)
  return ⟨path, amount⟩

/-- The time per path of the rows that start in the bounds. -/
def usages? (b : Bounds) (rows : List Row) : Option (List Usage) := do
  let chosen := selected b rows
  let paths ← chosen.mapM fun r => r.path.text?
  let usages ← paths.eraseDups.mapM (usage? chosen)
  return usages.mergeSort usageLe

/-- The start of the local day of a row's start. The quotient is rounded toward zero. -/
def Row.dayStart (offset : Int) (r : Row) : Quantity :=
  let shifted := Quantity.combine .sum (.ofCell r.start) (.ofInt offset)
  let days := Quantity.combine .quotient shifted (.ofInt dayMillis)
  Quantity.combine .difference (Quantity.combine .product days (.ofInt dayMillis)) (.ofInt offset)

/-- The starts of the local days that have any row, ascending; `offset` is in milliseconds. Of equal
starts the first one is kept, and all that are kept have to be whole. -/
def activeDays? (offset : Int) (rows : List Row) : Option (List Int64) := do
  let days ← ((rows.map (Row.dayStart offset)).eraseDupsBy Quantity.same).mapM Quantity.toInt64?
  return days.mergeSort fun d e => decide (d ≤ e)

end Daybook.Table
