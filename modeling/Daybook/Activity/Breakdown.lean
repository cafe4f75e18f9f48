import Daybook.Activity.Duration
import Daybook.Activity.Path
import Daybook.Activity.Record

/-! Amounts summed up by name, and the breakdown of a selection by executable that a pie shows. Sums are
whole numbers without a limit. Sums of 64 bits are the same as long as none of them, partial ones
included, leaves the 64 bits. -/

namespace Daybook

/-- Sums by name, in the order in which the names were first seen. No sum is too large; adding up in 64
bits agrees with this only where nothing leaves them. -/
abbrev Tally := List (String × Int)

namespace Tally

def add : Tally → String → Int → Tally
  | [], name, amount => [(name, amount)]
  | (other, sum) :: rest, name, amount =>
    if other = name then (other, sum + amount) :: rest
    else (other, sum) :: add rest name amount

def ofEntries (entries : List (String × Int)) : Tally :=
  entries.foldl (fun tally entry => tally.add entry.1 entry.2) []

/-- The sum over all names. -/
def total (t : Tally) : Int :=
  t.foldr (fun entry rest => entry.2 + rest) 0

theorem total_add (t : Tally) (name : String) (amount : Int) :
    (t.add name amount).total = t.total + amount := by
  induction t with
  | nil => simp [add, total]
  | cons entry rest ih =>
    simp only [total] at ih
    by_cases h : entry.1 = name
    · simp only [add, h, if_true, total, List.foldr_cons]
      omega
    · simp only [add, h, if_false, total, List.foldr_cons, ih]
      omega

/-- A name that is new comes last, one that is known stays where it is. -/
theorem names_add (t : Tally) (name : String) (amount : Int) :
    (t.add name amount).map (·.1) =
      t.map (·.1) ++ if name ∈ t.map (·.1) then [] else [name] := by
  induction t with
  | nil => simp [add]
  | cons entry rest ih =>
    by_cases h : entry.1 = name
    · simp [add, h]
    · have h' : name ≠ entry.1 := fun k => h k.symm
      have hm : name ∈ (entry :: rest).map (·.1) ↔ name ∈ rest.map (·.1) := by simp [h']
      simp only [add, h, if_false, List.map_cons, ih, List.cons_append]
      simp only [List.map_cons] at hm
      simp only [hm]

end Tally

/-- The time spent in one executable. -/
structure Slice where
  name : String
  total : Int
deriving DecidableEq, Repr

def Slice.tooltip (s : Slice) : String :=
  s.name ++ " - " ++ Duration.text s.total

/-- The time spent in each executable, largest first. -/
structure Breakdown where
  slices : List Slice
deriving DecidableEq, Repr

namespace Breakdown

/-- Sums up by the last segment of the path. Equal sums stay in the order in which their names were
first seen. -/
def ofEntries (entries : List (String × Int)) : Breakdown :=
  let tally := Tally.ofEntries (entries.map fun entry => (Path.lastSegment entry.1, entry.2))
  ⟨(tally.mergeSort fun a b => decide (b.2 ≤ a.2)).map fun (name, total) => ⟨name, total⟩⟩

def ofRecords (records : List Record) : Breakdown :=
  ofEntries (records.map Record.entry)

def ofUsages (usages : List Usage) : Breakdown :=
  ofEntries (usages.map Usage.entry)

/-- The sum over all slices, without a limit as in a tally. -/
def total (b : Breakdown) : Int :=
  b.slices.foldr (fun slice rest => slice.total + rest) 0

def title (b : Breakdown) : String :=
  "Total " ++ Duration.text b.total

def isEmpty (b : Breakdown) : Bool :=
  b.slices.isEmpty

end Breakdown

end Daybook
