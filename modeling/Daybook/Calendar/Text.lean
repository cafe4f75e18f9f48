import Daybook.Calendar.Date
import Daybook.Text.Blank
import Daybook.Text.Digits

/-! The two written forms of a day, `2026-10-19` and `October 19th, 2026`, and the reader of the
first one. The reader takes more spellings than the writer uses. -/

namespace Daybook.Date

open Text

/-- Four digits for the years 0 to 9999; a sign and at least four digits for all others. -/
def yearText (year : Int) : List Char :=
  if 0 ≤ year ∧ year ≤ 9999 then zeroPadded 4 year.toNat
  else (if year < 0 then '-' else '+') :: zeroPadded 4 year.natAbs

/-- The form `2026-10-19`. -/
def text (d : Date) : List Char :=
  yearText d.civil.year ++ '-' :: zeroPadded 2 d.civil.month ++ '-' :: zeroPadded 2 d.civil.day

/-- A signed year has any number of digits, an unsigned one four at most. -/
def takeYear? (text : List Char) : Option (Int × List Char) :=
  match trimStart text with
  | '-' :: rest => (takeAllDigits? rest).map fun (n, rest) => (-(n : Int), rest)
  | '+' :: rest => (takeAllDigits? rest).map fun (n, rest) => ((n : Int), rest)
  | rest => (takeDigitsUpTo? 4 rest).map fun (n, rest) => ((n : Int), rest)

/-- A month or a day of the month: one digit or two. -/
def takePart? (text : List Char) : Option (Nat × List Char) :=
  takeDigitsUpTo? 2 (trimStart text)

/-- Reads year, month and day of the month with hyphens between them. White space may stand before
each number and nowhere else. -/
def read? (text : List Char) : Option Date := do
  let (year, text) ← takeYear? text
  let text ← expect? '-' text
  let (month, text) ← takePart? text
  let text ← expect? '-' text
  let (day, text) ← takePart? text
  if text = [] then ofCivil? ⟨year, month, day⟩ else none

def monthName : Nat → String
  | 1 => "January"
  | 2 => "February"
  | 3 => "March"
  | 4 => "April"
  | 5 => "May"
  | 6 => "June"
  | 7 => "July"
  | 8 => "August"
  | 9 => "September"
  | 10 => "October"
  | 11 => "November"
  | _ => "December"

/-- The eleventh to the thirteenth of a hundred take `th` like most others. -/
def ordinalSuffix (n : Nat) : String :=
  if 11 ≤ n % 100 ∧ n % 100 ≤ 13 then "th"
  else match n % 10 with
    | 1 => "st"
    | 2 => "nd"
    | 3 => "rd"
    | _ => "th"

/-- The form `October 19th, 2026`. The year is a plain whole number. -/
def long (d : Date) : String :=
  let c := d.civil
  monthName c.month ++ " " ++ String.ofList (digitsOf c.day) ++ ordinalSuffix c.day ++ ", " ++
    String.ofList (signed c.year)

end Daybook.Date
