/-! Decimal digits: reading them off the front of a text and writing them with padding. -/

namespace Daybook.Text

/-- The number that a row of ASCII digits spells. -/
def valueOf (digits : List Char) : Nat :=
  Nat.ofDigitChars 10 digits 0

/-- The least number that has more than `n` digits. -/
def tenTo (n : Nat) : Nat :=
  Nat.pow 10 n

/-- Reads exactly `count` digits. -/
def takeDigits? (count : Nat) (text : List Char) : Option (Nat × List Char) :=
  let digits := text.take count
  if digits.length = count ∧ digits.all Char.isDigit then
    some (valueOf digits, text.drop count)
  else
    none

/-- Reads as many digits as there are, one at least and `limit` at most. -/
def takeDigitsUpTo? (limit : Nat) (text : List Char) : Option (Nat × List Char) :=
  let digits := (text.take limit).takeWhile Char.isDigit
  if digits = [] then none else some (valueOf digits, text.drop digits.length)

/-- Reads all leading digits, one at least. -/
def takeAllDigits? (text : List Char) : Option (Nat × List Char) :=
  let digits := text.takeWhile Char.isDigit
  if digits = [] then none else some (valueOf digits, text.dropWhile Char.isDigit)

theorem takeWhile_append_of_head {α : Type} {p : α → Bool} {front rest : List α}
    (hf : ∀ a ∈ front, p a) (hr : ∀ a ∈ rest.head?, ¬p a) :
    (front ++ rest).takeWhile p = front := by
  induction front with
  | nil => cases rest <;> simp_all
  | cons a front ih => simp_all

theorem dropWhile_append_of_head {α : Type} {p : α → Bool} {front rest : List α}
    (hf : ∀ a ∈ front, p a) (hr : ∀ a ∈ rest.head?, ¬p a) :
    (front ++ rest).dropWhile p = rest := by
  induction front with
  | nil => cases rest <;> simp_all
  | cons a front ih => simp_all

/-- Digits are read up to the first character that is none. -/
theorem takeAllDigits?_append {digits rest : List Char} (hne : digits ≠ [])
    (hd : ∀ c ∈ digits, c.isDigit) (hr : ∀ c ∈ rest.head?, ¬c.isDigit) :
    takeAllDigits? (digits ++ rest) = some (valueOf digits, rest) := by
  simp [takeAllDigits?, takeWhile_append_of_head hd hr, dropWhile_append_of_head hd hr, hne]

/-- Reads one given character. -/
def expect? (c : Char) : List Char → Option (List Char)
  | [] => none
  | d :: rest => if d = c then some rest else none

/-- The decimal digits of a number. -/
def digitsOf (n : Nat) : List Char :=
  Nat.toDigits 10 n

@[simp]
theorem valueOf_digitsOf (n : Nat) : valueOf (digitsOf n) = n :=
  Nat.ofDigitChars_toDigits (by decide) (by decide)

theorem isDigit_of_mem_digitsOf {n : Nat} {c : Char} (h : c ∈ digitsOf n) : c.isDigit :=
  Nat.isDigit_of_mem_toDigits (by decide) (by decide) h

theorem digitsOf_ne_nil (n : Nat) : digitsOf n ≠ [] := by
  intro h
  have := Nat.length_toDigits_pos (b := 10) (n := n)
  simp_all [digitsOf]

/-- The decimal digits of a number, with zeros in front up to a width. -/
def zeroPadded (width n : Nat) : List Char :=
  List.replicate (width - (digitsOf n).length) '0' ++ digitsOf n

/-- A whole number, with a sign only when it is negative. -/
def signed (n : Int) : List Char :=
  if n < 0 then '-' :: digitsOf n.natAbs else digitsOf n.natAbs

/-- Fills a text up to a width with spaces on the right. -/
def padRight (width : Nat) (text : String) : String :=
  text ++ String.ofList (List.replicate (width - text.length) ' ')

/-- Fills a text up to a width with spaces on the left. -/
def padLeft (width : Nat) (text : String) : String :=
  String.ofList (List.replicate (width - text.length) ' ') ++ text

end Daybook.Text
