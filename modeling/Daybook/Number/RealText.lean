import Daybook.Number.Real

/-! The text of a real: fifteen significant digits at most. The digits are taken from a whole number of
eighteen or nineteen digits, to which the real is brought by multiplying it with powers of ten in the
extended format. -/

namespace Daybook

open Binary (Format)

/-- The number `value * 10 ^ power`. -/
structure Scaled where
  value : Binary
  power : Int
deriving DecidableEq, Repr

namespace Scaled

/-- Multiplies the value by a power of ten and takes it out of the other power. -/
def shift (x : Scaled) (power : Int) : Scaled :=
  ⟨Format.extended.mul x.value (Format.extended.tenTo power), x.power - power⟩

/-- Brings a value from `10 ^ bound` on down by a power of ten. -/
def lower (power bound : Int) (x : Scaled) : Scaled :=
  if x.value.isBelow (Format.extended.tenTo bound) then x else x.shift (-power)

/-- Brings a value below `10 ^ bound` up by a power of ten. -/
def raise (power bound : Int) (x : Scaled) : Scaled :=
  if x.value.isBelow (Format.extended.tenTo bound) then x.shift power else x

/-- Brings a value between `10 ^ 17` and `10 ^ 19`, by hundreds, tens and ones of powers. No number of
64 bits takes more than eleven steps of a kind. -/
def normalize (x : Scaled) : Scaled :=
  if x.value.isBelow (Format.extended.tenTo 19) then
    Nat.repeat (raise 1 17) 11 (Nat.repeat (raise 10 7) 11 (Nat.repeat (raise 100 (-97)) 11 x))
  else
    Nat.repeat (lower 1 19) 11 (Nat.repeat (lower 10 29) 11 (Nat.repeat (lower 100 119) 11 x))

end Scaled

namespace Real

/-- Fifteen significant digits and the power of ten of the first one. Whether the last one is rounded
up depends on the next digit alone. -/
def significant (m : Binary) : List Char × Int :=
  let x := (Scaled.mk m 0).normalize
  let digits := Text.digitsOf x.value.whole
  let power := x.power + digits.length - 1
  let rounded := (Text.valueOf (digits.take 16) + 5) / 10
  if rounded = Text.tenTo 15 then (Text.digitsOf (Text.tenTo 14), power + 1)
  else (Text.digitsOf rounded, power)

def dropZeros (digits : List Char) : List Char :=
  (digits.reverse.dropWhile (· = '0')).reverse

/-- A fraction has one digit at least. -/
def fraction (digits : List Char) : List Char :=
  if dropZeros digits = [] then ['0'] else dropZeros digits

/-- The text of a magnitude. The first digit stands alone before an exponent that is below -4 or above
14; all other numbers are written without exponent. -/
def magnitudeText (m : Binary) : List Char :=
  if m.mantissa = 0 then ['0', '.', '0']
  else
    let (digits, power) := significant m
    if power < -4 ∨ 14 < power then
      digits.take 1 ++ '.' :: fraction (digits.drop 1) ++
        'e' :: (if power < 0 then '-' else '+') :: Text.zeroPadded 2 power.natAbs
    else if power < 0 then
      '0' :: '.' :: fraction (List.replicate (power.natAbs - 1) '0' ++ digits)
    else
      digits.take (power.toNat + 1) ++ '.' :: fraction (digits.drop (power.toNat + 1))

def text : Real → List Char
  | infinite negative => (if negative then "-Inf" else "Inf").toList
  | finite negative m =>
    if negative ∧ m.mantissa ≠ 0 then '-' :: magnitudeText m else magnitudeText m

end Real

end Daybook
