import Daybook.Text.Digits

/-! Magnitudes of binary floating-point numbers. Every operation of a format gives its number nearest to
the exact result, and of two equally near ones the even one. -/

namespace Daybook

/-- The quotient rounded to the nearest whole number, a half to the even neighbour. -/
def roundDiv (num den : Nat) : Nat :=
  let quotient := num / den
  let rest := num % den
  if den < 2 * rest ∨ 2 * rest = den ∧ quotient % 2 = 1 then quotient + 1 else quotient

/-- The number `mantissa * 2 ^ exponent`. -/
structure Binary where
  mantissa : Nat
  exponent : Int
deriving DecidableEq, Repr

namespace Binary

def num (x : Binary) : Nat :=
  x.mantissa <<< x.exponent.toNat

def den (x : Binary) : Nat :=
  1 <<< (-x.exponent).toNat

def zero : Binary :=
  ⟨0, 0⟩

/-- The number is less than another one. -/
def isBelow (x y : Binary) : Bool :=
  x.num * y.den < y.num * x.den

/-- The largest number of 53 bits that is finite. -/
def largest : Binary :=
  ⟨(1 <<< 53) - 1, 971⟩

/-- The number is too large for a finite one of 53 bits. -/
def overflows (x : Binary) : Bool :=
  largest.isBelow x

/-- The number without its fraction. -/
def whole (x : Binary) : Nat :=
  x.num / x.den

/-- The number in tenths, rounded. -/
def tenths (x : Binary) : Nat :=
  roundDiv (10 * x.num) x.den

/-- How many bits the mantissas of a format have, and its least exponent. -/
structure Format where
  bits : Nat
  leastExponent : Int
deriving DecidableEq, Repr

namespace Format

/-- The format of 64 bits, in which numbers are kept. -/
def double : Format :=
  ⟨53, -1074⟩

/-- The format of 80 bits, for what lies between two numbers of 64 bits. -/
def extended : Format :=
  ⟨64, -16445⟩

/-- The exponent with which a quotient fills the mantissa, or the least one there is. -/
def exponentOf (f : Format) (num den : Nat) : Int :=
  let e : Int := (num.log2 : Int) - den.log2 - (f.bits - 1 : Nat)
  let short := num <<< (-e).toNat < (den <<< e.toNat) <<< (f.bits - 1)
  max (if short then e - 1 else e) f.leastExponent

/-- The number nearest to `num / den`. -/
def nearest (f : Format) (num den : Nat) : Binary :=
  if num = 0 then zero
  else
    let e := f.exponentOf num den
    ⟨roundDiv (num <<< (-e).toNat) (den <<< e.toNat), e⟩

def ofNat (f : Format) (n : Nat) : Binary :=
  f.nearest n 1

/-- The number of the format nearest to a number of another one. -/
def round (f : Format) (x : Binary) : Binary :=
  f.nearest x.num x.den

def mul (f : Format) (x y : Binary) : Binary :=
  f.nearest (x.num * y.num) (x.den * y.den)

def div (f : Format) (x y : Binary) : Binary :=
  f.nearest (x.num * y.den) (x.den * y.num)

/-- The number nearest to a power of ten. -/
def tenTo (f : Format) (power : Int) : Binary :=
  f.nearest (Text.tenTo power.toNat) (Text.tenTo (-power).toNat)

end Format

end Binary

end Daybook
