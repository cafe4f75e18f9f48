/-! Strings between quotation marks, with escapes. -/

namespace Daybook.Json.Quoted

/-- A piece of a string: a character, or an escaped half of a surrogate pair. -/
inductive Piece
  | char (c : Char)
  | half (unit : Nat)
deriving DecidableEq, Repr

def isLeading (unit : Nat) : Bool :=
  0xD800 ≤ unit && unit < 0xDC00

def isTrailing (unit : Nat) : Bool :=
  0xDC00 ≤ unit && unit < 0xE000

/-- Puts the halves of surrogate pairs together. A lone half makes no text. -/
def join? : List Piece → Option (List Char)
  | [] => some []
  | .char c :: rest => (join? rest).map (c :: ·)
  | .half hi :: .half lo :: rest =>
    if isLeading hi && isTrailing lo then
      (join? rest).map (Char.ofNat (0x10000 + (hi - 0xD800) * 0x400 + (lo - 0xDC00)) :: ·)
    else
      none
  | .half _ :: _ => none

def hexDigit? (c : Char) : Option Nat :=
  if c.isDigit then some (c.toNat - '0'.toNat)
  else if 'a' ≤ c ∧ c ≤ 'f' then some (c.toNat - 'a'.toNat + 10)
  else if 'A' ≤ c ∧ c ≤ 'F' then some (c.toNat - 'A'.toNat + 10)
  else none

/-- The piece that four hexadecimal digits stand for. -/
def piece? (a b c d : Char) : Option Piece := do
  let unit := (((← hexDigit? a) * 16 + (← hexDigit? b)) * 16 + (← hexDigit? c)) * 16 + (← hexDigit? d)
  return if isLeading unit || isTrailing unit then .half unit else .char (Char.ofNat unit)

/-- The character that a letter after a backslash stands for. -/
def short? : Char → Option Char
  | '"' => some '"'
  | '\\' => some '\\'
  | '/' => some '/'
  | 'b' => some '\x08'
  | 'f' => some '\x0c'
  | 'n' => some '\n'
  | 'r' => some '\r'
  | 't' => some '\t'
  | _ => none

/-- Reads up to the closing mark. Control characters have to be escaped. -/
def take? : List Char → Option (List Piece × List Char)
  | [] => none
  | '"' :: rest => some ([], rest)
  | '\\' :: 'u' :: a :: b :: c :: d :: rest => do
    let piece ← piece? a b c d
    let (pieces, rest) ← take? rest
    return (piece :: pieces, rest)
  | '\\' :: e :: rest => do
    let c ← short? e
    let (pieces, rest) ← take? rest
    return (.char c :: pieces, rest)
  | c :: rest =>
    if c.toNat < 0x20 ∨ c = '\\' then none
    else do
      let (pieces, rest) ← take? rest
      return (.char c :: pieces, rest)

def hexChar (n : Nat) : Char :=
  Nat.digitChar n

/-- A character in a string: only the marks, the backslash and control characters are escaped. -/
def escape (c : Char) : List Char :=
  if c = '"' then ['\\', '"']
  else if c = '\\' then ['\\', '\\']
  else if c = '\x08' then ['\\', 'b']
  else if c = '\x0c' then ['\\', 'f']
  else if c = '\n' then ['\\', 'n']
  else if c = '\r' then ['\\', 'r']
  else if c = '\t' then ['\\', 't']
  else if c.toNat < 0x20 then
    ['\\', 'u', '0', '0', hexChar (c.toNat / 16), hexChar (c.toNat % 16)]
  else [c]

def write (text : String) : List Char :=
  '"' :: text.toList.flatMap escape ++ ['"']

end Daybook.Json.Quoted
