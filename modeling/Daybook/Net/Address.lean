import Daybook.Text.Digits

/-! Internet addresses and socket addresses, and their canonical texts. -/

namespace Daybook.Net

/-- An address of the fourth version: four octets. -/
structure IPv4 where
  a : UInt8
  b : UInt8
  c : UInt8
  d : UInt8
deriving DecidableEq, Repr

/-- An address of the sixth version: eight groups of sixteen bits. -/
structure IPv6 where
  groups : Vector UInt16 8
deriving DecidableEq, Repr

inductive Ip
  | v4 (ip : IPv4)
  | v6 (ip : IPv6)
deriving DecidableEq, Repr

/-- An address and a port. The scope of an IPv6 address is zero where none is given. -/
inductive Socket
  | v4 (ip : IPv4) (port : UInt16)
  | v6 (ip : IPv6) (scope : UInt32) (port : UInt16)
deriving DecidableEq, Repr

def Ip.socket (ip : Ip) (port : UInt16) : Socket :=
  match ip with
  | v4 ip => .v4 ip port
  | v6 ip => .v6 ip 0 port

def Socket.port : Socket → UInt16
  | v4 _ port => port
  | v6 _ _ port => port

def Socket.isV6 : Socket → Bool
  | v4 _ _ => false
  | v6 _ _ _ => true

namespace IPv4

def text (ip : IPv4) : List Char :=
  Text.digitsOf ip.a.toNat ++ '.' :: Text.digitsOf ip.b.toNat ++
    '.' :: Text.digitsOf ip.c.toNat ++ '.' :: Text.digitsOf ip.d.toNat

end IPv4

namespace IPv6

/-- The number of leading groups that are zero. -/
def zerosAhead (groups : List UInt16) : Nat :=
  (groups.takeWhile (· = 0)).length

/-- Where the longest run of zero groups starts and how long it is, the first one of equals. -/
def longestRun : List UInt16 → Nat × Nat
  | [] => (0, 0)
  | group :: rest =>
    let here := zerosAhead (group :: rest)
    let (start, length) := longestRun rest
    if length ≤ here then (0, here) else (start + 1, length)

/-- Groups in lower-case hexadecimal digits, with colons between them. -/
def joined (groups : List UInt16) : List Char :=
  List.intercalate [':'] (groups.map fun group => Nat.toDigits 16 group.toNat)

/-- The IPv4 address that the groups map. -/
def mapped? : List UInt16 → Option IPv4
  | [0, 0, 0, 0, 0, 0xFFFF, high, low] =>
    some ⟨(high >>> 8).toUInt8, high.toUInt8, (low >>> 8).toUInt8, low.toUInt8⟩
  | _ => none

/-- A mapped address ends in its IPv4 form. Otherwise two colons stand for the longest run of two or
more zero groups. -/
def text (ip : IPv6) : List Char :=
  let groups := ip.groups.toList
  match mapped? groups with
  | some v4 => "::ffff:".toList ++ v4.text
  | none =>
    let (start, length) := longestRun groups
    if 2 ≤ length then
      joined (groups.take start) ++ ':' :: ':' :: joined (groups.drop (start + length))
    else
      joined groups

end IPv6

def Ip.text : Ip → List Char
  | v4 ip => ip.text
  | v6 ip => ip.text

/-- The text of a socket address. A scope is shown if it is not zero. -/
def Socket.text : Socket → List Char
  | v4 ip port => ip.text ++ ':' :: Text.digitsOf port.toNat
  | v6 ip scope port =>
    '[' :: ip.text ++ (if scope = 0 then [] else '%' :: Text.digitsOf scope.toNat) ++
      ']' :: ':' :: Text.digitsOf port.toNat

end Daybook.Net
