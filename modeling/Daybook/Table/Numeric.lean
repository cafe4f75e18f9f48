import Daybook.Number.Decimal
import Daybook.Text.Digits

/-! Numbers in the texts of a table: which texts are numbers, and which number a text begins with. -/

namespace Daybook.Table

def isSpace (c : Char) : Bool :=
  c = ' ' || (0x09 ≤ c.toNat && c.toNat ≤ 0x0D)

/-- A text cut into the parts of a number. -/
structure NumericText where
  negative : Bool
  whole : List Char
  /-- The digits after a point; none if there is no point. -/
  fraction : Option (List Char)
  /-- Sign and digits after an `e`; none if there is no `e`. -/
  exponent : Option (Bool × List Char)
  /-- What follows the number and the white space after it. -/
  rest : List Char

namespace NumericText

def takeSign : List Char → Bool × List Char
  | '-' :: rest => (true, rest)
  | '+' :: rest => (false, rest)
  | text => (false, text)

def takeFraction : List Char → Option (List Char) × List Char
  | '.' :: rest => (some (rest.takeWhile Char.isDigit), rest.dropWhile Char.isDigit)
  | text => (none, text)

def takeExponent : List Char → Option (Bool × List Char) × List Char
  | 'e' :: rest | 'E' :: rest =>
    let (negative, rest) := takeSign rest
    (some (negative, rest.takeWhile Char.isDigit), rest.dropWhile Char.isDigit)
  | text => (none, text)

def ofText (text : List Char) : NumericText :=
  let (negative, text) := takeSign (text.dropWhile isSpace)
  let whole := text.takeWhile Char.isDigit
  let (fraction, text) := takeFraction (text.dropWhile Char.isDigit)
  let (exponent, text) := takeExponent text
  ⟨negative, whole, fraction, exponent, text.dropWhile isSpace⟩

def digits (n : NumericText) : List Char :=
  n.whole ++ n.fraction.getD []

/-- An exponent, if there is one, has digits. -/
def exponentHolds (n : NumericText) : Bool :=
  n.exponent.all fun e => !e.2.isEmpty

/-- The whole text is a number. -/
def isNumber (n : NumericText) : Bool :=
  !n.digits.isEmpty && n.exponentHolds && n.rest.isEmpty

/-- There is neither a point nor an `e`. -/
def isPlain (n : NumericText) : Bool :=
  n.fraction.isNone && n.exponent.isNone

/-- The text begins with a number that has a point or a whole exponent. -/
def beginsReal (n : NumericText) : Bool :=
  !n.digits.isEmpty && !n.isPlain &&
    (n.exponentHolds || n.fraction.isSome && n.exponent.isSome)

/-- The digits at the beginning as a whole number; zero if there are none. -/
def wholeValue (n : NumericText) : Int :=
  if n.negative then -(Text.valueOf n.whole : Int) else Text.valueOf n.whole

/-- The number that digits of an exponent spell. From ten thousand on it is ten thousand, but five
digits count in full. -/
def exponentValue (digits : List Char) : Nat :=
  digits.foldl (fun value c => if value < 10000 then Nat.ofDigitChars 10 [c] value else 10000) 0

def signedExponent (n : NumericText) : Int :=
  match n.exponent with
  | some (true, digits) => -(exponentValue digits : Int)
  | some (false, digits) => exponentValue digits
  | none => 0

/-- The digits of a number count as long as their value stays below this limit. Any further digit would
still fit a word. -/
def valueLimit : Nat := 18446744073709551600

def real (n : NumericText) : Real :=
  let decimal := Decimal.ofDigits valueLimit n.whole (n.fraction.getD [])
  (decimal.shift n.signedExponent).roundExtended n.negative

end NumericText

end Daybook.Table
