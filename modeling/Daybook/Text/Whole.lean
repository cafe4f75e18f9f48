import Daybook.Number.Width
import Daybook.Text.Digits

/-! Whole numbers in texts that people type: an optional sign and then digits only. -/

namespace Daybook.Text

/-- Reads an unsigned number; one leading plus sign is allowed. -/
def readNat? (text : List Char) : Option Nat :=
  let digits := match text with
    | '+' :: rest => rest
    | _ => text
  if digits ≠ [] ∧ digits.all Char.isDigit then some (valueOf digits) else none

/-- Reads a number that may carry a plus or a minus sign. -/
def readInt? (text : List Char) : Option Int :=
  match text with
  | '-' :: rest =>
    if rest ≠ [] ∧ rest.all Char.isDigit then some (-(valueOf rest : Int)) else none
  | _ => (readNat? text).map Int.ofNat

/-- Reads a number from `-limit` on below `limit`. -/
def readWithin? (limit : Nat) (text : List Char) : Option Int :=
  (readInt? text).filter fun n => Within limit n

end Daybook.Text
