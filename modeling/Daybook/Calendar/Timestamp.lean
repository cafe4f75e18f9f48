import Daybook.Calendar.Instant
import Daybook.Text.Digits

/-! Timestamps such as `2026-10-19T15:00:00.5+02:00`, read as RFC 3339 has them. -/

namespace Daybook.Timestamp

open Text

/-- Skips one of the letters that may stand between date and time. -/
def skipSeparator? : List Char → Option (List Char)
  | 'T' :: rest | 't' :: rest | ' ' :: rest => some rest
  | _ => none

/-- The nanoseconds of an optional fraction. Digits after the ninth are dropped. -/
def takeFraction? : List Char → Option (Nat × List Char)
  | '.' :: rest =>
    let digits := rest.takeWhile Char.isDigit
    if digits = [] then none
    else
      let kept := digits.take 9
      some (valueOf (kept ++ List.replicate (9 - kept.length) '0'), rest.dropWhile Char.isDigit)
  | text => some (0, text)

/-- Hours and minutes east of UTC, in seconds. -/
def takeHoursMinutes? (text : List Char) : Option (Int × List Char) := do
  let (hours, text) ← takeDigits? 2 text
  let text ← expect? ':' text
  let (minutes, text) ← takeDigits? 2 text
  if hours ≤ 23 ∧ minutes ≤ 59 then some (((hours * 3600 + minutes * 60 : Nat) : Int), text)
  else none

/-- Seconds east of UTC; `Z` stands for none, and U+2212 is a minus sign as well. -/
def takeOffset? : List Char → Option (Int × List Char)
  | 'Z' :: rest | 'z' :: rest => some (0, rest)
  | '+' :: rest => takeHoursMinutes? rest
  | '-' :: rest | '\u2212' :: rest =>
    (takeHoursMinutes? rest).map fun (seconds, rest) => (-seconds, rest)
  | _ => none

/-- The instant of a local date and time at an offset. Second 60 is second 59 and a billion
nanoseconds more. -/
def instant? (date : Date) (hour minute second nano : Nat) (offset : Int) : Option Instant :=
  if hour ≤ 23 ∧ minute ≤ 59 ∧ second ≤ 60 then
    Instant.of?
      (date.number * daySeconds + (hour * 3600 + minute * 60 + min second 59 : Nat) - offset)
      (if second = 60 then nano + 1000000000 else nano)
  else
    none

def read? (text : List Char) : Option Instant := do
  let (year, text) ← takeDigits? 4 text
  let text ← expect? '-' text
  let (month, text) ← takeDigits? 2 text
  let text ← expect? '-' text
  let (day, text) ← takeDigits? 2 text
  let date ← Date.ofCivil? ⟨year, month, day⟩
  let text ← skipSeparator? text
  let (hour, text) ← takeDigits? 2 text
  let text ← expect? ':' text
  let (minute, text) ← takeDigits? 2 text
  let text ← expect? ':' text
  let (second, text) ← takeDigits? 2 text
  let (nano, text) ← takeFraction? text
  let (offset, text) ← takeOffset? text
  if text = [] then instant? date hour minute second nano offset else none

end Daybook.Timestamp
