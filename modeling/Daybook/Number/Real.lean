import Daybook.Number.Binary
import Daybook.Number.Width

/-! Reals as a database keeps them: binary floating-point numbers with a sign, and the infinities.
Arithmetic is exact and then rounded; where it has no result, as for the difference of two
infinities, there is none. -/

namespace Daybook

inductive Real
  | finite (negative : Bool) (magnitude : Binary)
  | infinite (negative : Bool)
deriving DecidableEq, Repr

namespace Real

/-- The real of a magnitude that may be too large for a finite one. -/
def ofMagnitude (negative : Bool) (magnitude : Binary) : Real :=
  if magnitude.overflows then infinite negative else finite negative magnitude

/-- The real nearest to a quotient. -/
def ofFraction (num : Int) (den : Nat) : Real :=
  ofMagnitude (num < 0) (Binary.Format.double.nearest num.natAbs den)

def ofInt (n : Int) : Real :=
  ofFraction n 1

/-- The numerator of a finite real over the denominator of its magnitude. -/
def signedNum (negative : Bool) (m : Binary) : Int :=
  if negative then -(m.num : Int) else m.num

def neg : Real → Real
  | finite negative m => finite (!negative) m
  | infinite negative => infinite (!negative)

def add? : Real → Real → Option Real
  | finite s x, finite t y =>
    some (ofFraction (signedNum s x * y.den + signedNum t y * x.den) (x.den * y.den))
  | infinite s, infinite t => if s = t then some (infinite s) else none
  | infinite s, finite _ _ => some (infinite s)
  | finite _ _, infinite t => some (infinite t)

def sub? (x y : Real) : Option Real :=
  add? x y.neg

def mul? : Real → Real → Option Real
  | finite s x, finite t y => some (ofFraction (signedNum s x * signedNum t y) (x.den * y.den))
  | infinite s, infinite t => some (infinite (s != t))
  | infinite s, finite t y => if y.num = 0 then none else some (infinite (s != t))
  | finite s x, infinite t => if x.num = 0 then none else some (infinite (s != t))

def div? : Real → Real → Option Real
  | finite s x, finite t y =>
    if y.num = 0 then none
    else
      let num := signedNum s x * y.den
      some (ofFraction (if t then -num else num) (x.den * y.num))
  | infinite s, finite t y => if y.num = 0 then none else some (infinite (s != t))
  | finite s _, infinite t => some (finite (s != t) .zero)
  | infinite _, infinite _ => none

/-- The reals are the same number; both zeros are. -/
def equals : Real → Real → Bool
  | finite s x, finite t y => signedNum s x * y.den = signedNum t y * x.den
  | infinite s, infinite t => s = t
  | _, _ => false

/-- The real is the whole number. -/
def equalsInt (n : Int) : Real → Bool
  | finite negative m => signedNum negative m = n * m.den
  | infinite _ => false

/-- The real is at least the whole number. -/
def atLeast (n : Int) : Real → Bool
  | infinite negative => !negative
  | finite negative m => n * m.den ≤ signedNum negative m

/-- The whole number that the real is, unless it lies at the ends of 64 bits. -/
def toInt64? : Real → Option Int64
  | infinite _ => none
  | finite negative m =>
    let whole := m.num / m.den
    if m.num % m.den = 0 ∧ whole < limit64 - 1 then
      some (Int64.ofInt (if negative then -(whole : Int) else whole))
    else
      none

end Real

end Daybook
