import Daybook.Number.Decimal
import Daybook.Number.Width
import Daybook.Text.Digits

/-! Numbers in JSON texts. They are kept as written: a sign, digits before and after the point, and an
exponent. -/

namespace Daybook.Json

/-- A number as it is written. -/
structure Numeral where
  negative : Bool
  whole : List Char
  /-- The digits after the point; none if there is no point. -/
  fraction : List Char
  exponent : Option Int
deriving DecidableEq, Repr

namespace Numeral

/-- A whole number, written without fraction and exponent. -/
def ofInt (n : Int) : Numeral :=
  ⟨n < 0, Text.digitsOf n.natAbs, [], none⟩

/-- There is neither a fraction nor an exponent. -/
def isPlain (n : Numeral) : Bool :=
  n.fraction.isEmpty && n.exponent.isNone

/-- The whole number that is written without fraction and exponent. `-0` is none. -/
def toInt? (n : Numeral) : Option Int :=
  let value := Text.valueOf n.whole
  if ¬n.isPlain ∨ n.negative ∧ value = 0 then none
  else some (if n.negative then -(value : Int) else value)

/-- The whole number, if it fits 64 bits. -/
def toInt64? (n : Numeral) : Option Int64 :=
  n.toInt?.bind int64?

/-- The real that the number is read as. Its digits are cut to what fits a word. -/
def real (n : Numeral) : Real :=
  ((Decimal.ofDigits wordLimit n.whole n.fraction).shift (n.exponent.getD 0)).roundTwice n.negative

/-- The number is too large for a finite real. -/
def overflows (n : Numeral) : Bool :=
  match n.real with
  | .finite _ _ => false
  | .infinite _ => true

/-- Whole numbers that fit a word are not too large. -/
theorem not_overflows_of_lt (negative : Bool) {whole : List Char}
    (h : Text.valueOf whole < wordLimit) :
    (Numeral.mk negative whole [] none).overflows = false := by
  have hd : Decimal.ofDigits wordLimit whole [] = ⟨Text.valueOf whole, 0⟩ := by
    simp [Decimal.ofDigits, Decimal.appendBelow_of_lt h, Decimal.appendBelow, Text.valueOf]
  obtain ⟨m, hm⟩ :=
    Decimal.roundTwice_of_scale_le negative (d := ⟨Text.valueOf whole, 0⟩) (Int.le_refl 0)
  simp [overflows, real, hd, Decimal.shift, hm]

/-- A number that is read as a whole one of 64 bits is not too large. -/
theorem not_overflows_of_toInt64? {n : Numeral} {x : Int64} (h : n.toInt64? = some x) :
    n.overflows = false := by
  obtain ⟨negative, whole, fraction, exponent⟩ := n
  simp only [toInt64?, toInt?, isPlain, Option.bind_eq_some_iff] at h
  obtain ⟨value, hvalue, hx⟩ := h
  split at hvalue
  · contradiction
  next hplain =>
  simp only [not_or, Classical.not_not, Bool.and_eq_true, List.isEmpty_iff,
    Option.isNone_iff_eq_none] at hplain
  obtain ⟨⟨rfl, rfl⟩, -⟩ := hplain
  apply not_overflows_of_lt
  have hfit := int64?_eq_some_iff.mp hx ▸ within_toInt x
  have heq := Option.some.inj hvalue
  simp only [Within, limit64] at hfit
  rw [wordLimit]
  split at heq <;> omega

/-- Reads the digits before the point. A zero is followed by no digit. -/
def takeWhole? : List Char → Option (List Char × List Char)
  | '0' :: rest =>
    match rest with
    | c :: _ => if c.isDigit then none else some (['0'], rest)
    | [] => some (['0'], rest)
  | text =>
    let digits := text.takeWhile Char.isDigit
    if digits = [] then none else some (digits, text.dropWhile Char.isDigit)

/-- Reads a point and the digits after it, if there is a point. -/
def takeFraction? : List Char → Option (List Char × List Char)
  | '.' :: rest =>
    let digits := rest.takeWhile Char.isDigit
    if digits = [] then none else some (digits, rest.dropWhile Char.isDigit)
  | text => some ([], text)

/-- Reads a sign, if there is one; true stands for minus. -/
def takeSign : List Char → Bool × List Char
  | '-' :: rest => (true, rest)
  | '+' :: rest => (false, rest)
  | text => (false, text)

/-- Reads an exponent, if there is one. -/
def takeExponent? : List Char → Option (Option Int × List Char)
  | 'e' :: rest | 'E' :: rest =>
    let (negative, rest) := takeSign rest
    (Text.takeAllDigits? rest).map fun (n, rest) =>
      (some (if negative then -(n : Int) else n), rest)
  | text => some (none, text)

def take? (text : List Char) : Option (Numeral × List Char) := do
  let (negative, text) := match text with
    | '-' :: rest => (true, rest)
    | text => (false, text)
  let (whole, text) ← takeWhole? text
  let (fraction, text) ← takeFraction? text
  let (exponent, text) ← takeExponent? text
  return (⟨negative, whole, fraction, exponent⟩, text)

end Numeral

end Daybook.Json
