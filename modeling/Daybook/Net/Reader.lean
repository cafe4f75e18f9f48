import Daybook.Net.Address

/-! Readers of addresses. Each takes its address off the front of a text and gives the rest; a whole
text is an address if nothing remains. -/

namespace Daybook.Net

open Text

/-- Reads a decimal number of at most `limit`; zeros may stand in front. -/
def takeDecimal? (limit : Nat) (text : List Char) : Option (Nat × List Char) :=
  (takeAllDigits? text).filter (·.1 ≤ limit)

/-- Reads an octet: one to three decimal digits without a needless zero in front. -/
def takeOctet? (text : List Char) : Option (UInt8 × List Char) :=
  let digits := text.takeWhile Char.isDigit
  if digits = [] ∨ 3 < digits.length ∨ (digits.head? = some '0' ∧ 1 < digits.length) ∨
      255 < valueOf digits then
    none
  else
    some (UInt8.ofNat (valueOf digits), text.dropWhile Char.isDigit)

def takeIPv4? (text : List Char) : Option (IPv4 × List Char) := do
  let (a, text) ← takeOctet? text
  let text ← expect? '.' text
  let (b, text) ← takeOctet? text
  let text ← expect? '.' text
  let (c, text) ← takeOctet? text
  let text ← expect? '.' text
  let (d, text) ← takeOctet? text
  return (⟨a, b, c, d⟩, text)

def hexValue? (c : Char) : Option Nat :=
  if c.isDigit then some (c.toNat - '0'.toNat)
  else if 'a' ≤ c ∧ c ≤ 'f' then some (c.toNat - 'a'.toNat + 10)
  else if 'A' ≤ c ∧ c ≤ 'F' then some (c.toNat - 'A'.toNat + 10)
  else none

def isHex (c : Char) : Bool :=
  (hexValue? c).isSome

/-- Reads a group: one to four hexadecimal digits. -/
def takeGroup? (text : List Char) : Option (UInt16 × List Char) :=
  let digits := text.takeWhile isHex
  if digits = [] ∨ 4 < digits.length then none
  else
    some (UInt16.ofNat (digits.foldl (fun value c => 16 * value + (hexValue? c).getD 0) 0),
      text.dropWhile isHex)

/-- Skips the colon before every group but the first. -/
def skipColon? (first : Bool) (text : List Char) : Option (List Char) :=
  if first then some text else expect? ':' text

/-- The two groups that an IPv4 address takes. -/
def IPv4.groups (ip : IPv4) : List UInt16 :=
  [ip.a.toUInt16 <<< 8 ||| ip.b.toUInt16, ip.c.toUInt16 <<< 8 ||| ip.d.toUInt16]

/-- Reads as many groups as there are, up to `limit`. An IPv4 address may stand for the last two; the
flag says whether one does. -/
def takeGroups (first : Bool) : Nat → List Char → List UInt16 × Bool × List Char
  | 0, text => ([], false, text)
  | limit + 1, text =>
    match (if limit = 0 then none else (skipColon? first text).bind takeIPv4?) with
    | some (ip, rest) => (ip.groups, true, rest)
    | none =>
      match (skipColon? first text).bind takeGroup? with
      | some (group, rest) =>
        let (groups, dotted, rest) := takeGroups false limit rest
        (group :: groups, dotted, rest)
      | none => ([], false, text)

def IPv6.ofList? (groups : List UInt16) : Option IPv6 :=
  if h : groups.length = 8 then some ⟨⟨groups.toArray, by simpa using h⟩⟩ else none

/-- Reads eight groups, or fewer with two colons somewhere for one zero group or more. An IPv4 address
does not stand before the two colons. -/
def takeIPv6? (text : List Char) : Option (IPv6 × List Char) :=
  let (head, dotted, rest) := takeGroups true 8 text
  if head.length = 8 then (IPv6.ofList? head).map (·, rest)
  else if dotted then none
  else do
    let rest ← expect? ':' rest
    let rest ← expect? ':' rest
    let (tail, _, rest) := takeGroups true (7 - head.length) rest
    let ip ← IPv6.ofList? (head ++ List.replicate (8 - head.length - tail.length) 0 ++ tail)
    return (ip, rest)

def takePort? (text : List Char) : Option (UInt16 × List Char) := do
  let text ← expect? ':' text
  let (port, text) ← takeDecimal? 65535 text
  return (UInt16.ofNat port, text)

/-- Reads a scope after a percent sign; without one the scope is zero. -/
def takeScope? : List Char → Option (UInt32 × List Char)
  | '%' :: text => (takeDecimal? 4294967295 text).map fun (scope, text) => (UInt32.ofNat scope, text)
  | text => some (0, text)

def takeSocketV4? (text : List Char) : Option (Socket × List Char) := do
  let (ip, text) ← takeIPv4? text
  let (port, text) ← takePort? text
  return (.v4 ip port, text)

/-- An IPv6 address with a port stands in brackets. -/
def takeSocketV6? (text : List Char) : Option (Socket × List Char) := do
  let text ← expect? '[' text
  let (ip, text) ← takeIPv6? text
  let (scope, text) ← takeScope? text
  let text ← expect? ']' text
  let (port, text) ← takePort? text
  return (.v6 ip scope port, text)

/-- The value of a reader that takes the whole text. -/
def whole? {α : Type} : Option (α × List Char) → Option α
  | some (value, []) => some value
  | _ => none

def Socket.read? (text : List Char) : Option Socket :=
  (whole? (takeSocketV4? text)).or (whole? (takeSocketV6? text))

def Ip.read? (text : List Char) : Option Ip :=
  ((whole? (takeIPv4? text)).map .v4).or ((whole? (takeIPv6? text)).map .v6)

end Daybook.Net
