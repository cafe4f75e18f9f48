import Daybook.Text.Digits

/-! Durations such as `2h 5m 3s`. -/

namespace Daybook.Duration

/-- Days, hours, minutes and seconds, each with its letter. -/
def components (seconds : Nat) : List (Nat × Char) :=
  [(seconds / 86400, 'd'), (seconds % 86400 / 3600, 'h'), (seconds % 3600 / 60, 'm'),
    (seconds % 60, 's')]

def componentText (part : Nat × Char) : List Char :=
  Text.digitsOf part.1 ++ [part.2]

/-- The components that are not zero, with a space between any two. -/
def secondsText (seconds : Nat) : List Char :=
  List.intercalate [' '] (((components seconds).filter (·.1 ≠ 0)).map componentText)

/-- Whole seconds, rounded toward zero. What rounds to nothing is `0s` and has no sign. -/
def text (ms : Int) : String :=
  let seconds := ms.natAbs / 1000
  String.ofList <|
    if seconds = 0 then ['0', 's']
    else if ms < 0 then '-' :: secondsText seconds
    else secondsText seconds

end Daybook.Duration
