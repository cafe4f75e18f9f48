import Daybook.Number.Real

/-! Decimal numbers as they are written, and the reals that they are read as. A decimal keeps as many
leading digits as fit a word. What rounding does to longer ones depends on its steps, and there are two
ways: `roundTwice` for numbers in JSON texts and `roundExtended` for numbers in the texts of a table. -/

namespace Daybook

open Binary (Format)

/-- The number `value * 10 ^ scale`. -/
structure Decimal where
  value : Nat
  scale : Int
deriving DecidableEq, Repr

namespace Decimal

/-- Appends digits to a number as long as it stays below a limit, and gives the digits that are left. -/
def appendBelow (limit : Nat) : Nat → List Char → Nat × List Char
  | value, [] => (value, [])
  | value, c :: rest =>
    let next := Nat.ofDigitChars 10 [c] value
    if next < limit then appendBelow limit next rest else (value, c :: rest)

theorem le_ofDigitChars (digits : List Char) (value : Nat) :
    value ≤ Nat.ofDigitChars 10 digits value := by
  induction digits generalizing value with
  | nil => simp
  | cons c rest ih =>
    rw [Nat.ofDigitChars_cons]
    exact Nat.le_trans (by omega) (ih _)

/-- Digits whose number stays below the limit are all appended. -/
theorem appendBelow_of_lt {limit value : Nat} {digits : List Char}
    (h : Nat.ofDigitChars 10 digits value < limit) :
    appendBelow limit value digits = (Nat.ofDigitChars 10 digits value, []) := by
  induction digits generalizing value with
  | nil => simp [appendBelow]
  | cons c rest ih =>
    rw [Nat.ofDigitChars_cons] at h ⊢
    have hle := le_ofDigitChars rest (10 * value + (c.toNat - '0'.toNat))
    simp only [appendBelow, Nat.ofDigitChars_cons, Nat.ofDigitChars_nil]
    rw [if_pos (Nat.lt_of_le_of_lt hle h), ih h]

/-- The decimal of a whole part and a fraction. A digit of the whole part for which there is no room
counts as a zero, and so do all after it; in a fraction it and all after it are cut off. -/
def ofDigits (limit : Nat) (whole fraction : List Char) : Decimal :=
  let (value, skipped) := appendBelow limit 0 whole
  let (value, ignored) := appendBelow limit value fraction
  ⟨value, (skipped.length : Int) + ignored.length - fraction.length⟩

/-- Multiplies by a power of ten. -/
def shift (d : Decimal) (power : Int) : Decimal :=
  { d with scale := d.scale + power }

/-- Rounds the value, and then its product with a power of ten or its quotient by one. A product with a
power above the 308th is infinite, and a quotient by one takes two steps. -/
def roundTwice (negative : Bool) (d : Decimal) : Real :=
  let value := Format.double.ofNat d.value
  if d.scale ≤ 0 then
    let first := min 308 (-d.scale)
    let second := min 308 (-d.scale - first)
    let quotient := Format.double.div value (Format.double.tenTo first)
    .finite negative (Format.double.div quotient (Format.double.tenTo second))
  else if d.value = 0 then .finite negative .zero
  else if 308 < d.scale then .infinite negative
  else .ofMagnitude negative (Format.double.mul value (Format.double.tenTo d.scale))

/-- A number without tens is read as a finite real. -/
theorem roundTwice_of_scale_le (negative : Bool) {d : Decimal} (h : d.scale ≤ 0) :
    ∃ magnitude, d.roundTwice negative = .finite negative magnitude := by
  simp [roundTwice, h]

/-- Appends a zero to the value, if the scale asks for one and any digit would fit the word. -/
def appendZero (d : Decimal) : Decimal :=
  if 0 < d.scale ∧ 10 * d.value + 9 < wordLimit then ⟨10 * d.value, d.scale - 1⟩ else d

/-- Takes a zero from the end of the value, if the scale asks for it. -/
def dropZero (d : Decimal) : Decimal :=
  if d.scale < 0 ∧ d.value % 10 = 0 then ⟨d.value / 10, d.scale + 1⟩ else d

/-- The number with the scale that is nearest to zero. A word has no more than twenty digits. -/
def settle (d : Decimal) : Decimal :=
  Nat.repeat dropZero 20 (Nat.repeat appendZero 20 d)

/-- Multiplies by a power of ten: first by hundreds of tens, then by tens of them, then by each that is
left. Every product is rounded. -/
def timesTen (x : Binary) (power : Int) : Binary :=
  let times (unit : Nat) (x : Binary) : Binary :=
    Format.extended.mul x (Format.extended.tenTo (power.sign * unit))
  let count := power.natAbs
  Nat.repeat (times 1) (count % 10)
    (Nat.repeat (times 10) (count % 100 / 10) (Nat.repeat (times 100) (count / 100) x))

/-- Rounds the settled value in the extended format, each of its products with powers of ten too, and
then the last one to a real. -/
def roundExtended (negative : Bool) (d : Decimal) : Real :=
  let magnitude := timesTen (Format.extended.ofNat d.settle.value) d.settle.scale
  if magnitude.overflows then .infinite negative
  else .finite negative (Format.double.round magnitude)

end Decimal

end Daybook
