import Daybook.Text.Whole

/-! Form-urlencoded queries: pairs of keys and values, as bytes. -/

namespace Daybook.Http.Form

abbrev Octets := List UInt8

def octetsOf (text : List Char) : Octets :=
  text.flatMap String.utf8EncodeChar

def hexValue? (octet : UInt8) : Option UInt8 :=
  if 0x30 ≤ octet ∧ octet ≤ 0x39 then some (octet - 0x30)
  else if 0x41 ≤ octet ∧ octet ≤ 0x46 then some (octet - 0x41 + 10)
  else if 0x61 ≤ octet ∧ octet ≤ 0x66 then some (octet - 0x61 + 10)
  else none

/-- A plus sign is a space, and a percent sign with two hexadecimal digits is the byte that they
spell. Any other percent sign stands for itself. -/
def decode : Octets → Octets
  | [] => []
  | 0x25 :: high :: low :: rest =>
    match hexValue? high, hexValue? low with
    | some h, some l => (h * 16 + l) :: decode rest
    | _, _ => 0x25 :: decode (high :: low :: rest)
  | 0x2B :: rest => 0x20 :: decode rest
  | octet :: rest => octet :: decode rest

/-- The pieces between separators. -/
def pieces (separator : UInt8) : Octets → List Octets
  | [] => [[]]
  | octet :: rest =>
    if octet = separator then [] :: pieces separator rest
    else
      match pieces separator rest with
      | [] => [[octet]]
      | piece :: others => (octet :: piece) :: others

/-- A key and a value with the first equals sign between them. -/
def pair (piece : Octets) : Octets × Octets :=
  (decode (piece.takeWhile (· ≠ 0x3D)), decode ((piece.dropWhile (· ≠ 0x3D)).drop 1))

/-- The pairs of a query. Pieces with nothing in them are no pairs. -/
def pairs (query : List Char) : List (Octets × Octets) :=
  ((pieces 0x26 (octetsOf query)).filter (· ≠ [])).map pair

/-- The whole number below a limit that the bytes spell. -/
def readWithin? (limit : Nat) (value : Octets) : Option Int :=
  Text.readWithin? limit (value.map fun octet => Char.ofNat octet.toNat)

/-- The value of a key that may come once at most. The outcome is none if it comes twice or is no
number, and `some none` if it does not come. -/
def number? (limit : Nat) (key : String) (pairs : List (Octets × Octets)) : Option (Option Int) :=
  match pairs.filter (·.1 = octetsOf key.toList) with
  | [] => some none
  | [(_, value)] => (readWithin? limit value).map some
  | _ => none

end Daybook.Http.Form
