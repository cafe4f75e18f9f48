/-! What a request asks for. It may name a path and a query on the server, a whole address with them, a
server alone, or with `*` no resource at all. -/

namespace Daybook.Http

/-- A path and what follows the question mark after it. -/
structure Target where
  path : String
  query : List Char
deriving DecidableEq, Repr

namespace Target

/-- Cuts a text into path and query. A fragment belongs to neither, and no path is empty. -/
def ofResource (text : List Char) : Target :=
  let bare := text.takeWhile (· ≠ '#')
  let path := bare.takeWhile (· ≠ '?')
  ⟨if path = [] then "/" else String.ofList path, (bare.dropWhile (· ≠ '?')).drop 1⟩

/-- Blanks, control characters and three marks stand in a path only in escaped form. -/
def isPathChar (c : Char) : Bool :=
  0x20 < c.toNat && c.toNat ≠ 0x7F && c ≠ '<' && c ≠ '>' && c ≠ '`'

/-- Blanks, control characters and three marks stand in a query only in escaped form. -/
def isQueryChar (c : Char) : Bool :=
  0x20 < c.toNat && c.toNat ≠ 0x7F && c ≠ '"' && c ≠ '<' && c ≠ '>'

/-- Path and query, if their characters may stand there. -/
def ofResource? (text : List Char) : Option Target :=
  let target := ofResource text
  if target.path.toList.all isPathChar && target.query.all isQueryChar then some target else none

/-- What a reader of a server's name has seen. -/
structure Seen where
  /-- The colons since the last `@` or `]`. -/
  colons : Nat := 0
  /-- There is a percent sign since the last `@` or `]`. -/
  percent : Bool := false
  opened : Bool := false
  closed : Bool := false
deriving DecidableEq, Repr

/-- Letters, digits and marks that have no meaning in the name of a server. -/
def isNameChar (c : Char) : Bool :=
  c.isAlphanum || "!$&'()*+,-.;=_~".toList.contains c

/-- Reads a character of a server's name. There is one pair of brackets at most, and there are at most
eight colons up to an `@` or a `]`. -/
def Seen.next? (s : Seen) : Char → Option Seen
  | ':' => if s.colons = 8 then none else some { s with colons := s.colons + 1 }
  | '[' => if s.percent || s.opened then none else some { s with opened := true }
  | ']' =>
    if s.opened && !s.closed then some { s with colons := 0, percent := false, closed := true }
    else none
  | '@' => some { s with colons := 0, percent := false }
  | '%' => some { s with percent := true }
  | c => if isNameChar c then some s else none

/-- The text names a server: perhaps a user, a host that may stand in brackets, and perhaps a port. -/
def isServer (text : List Char) : Bool :=
  match text.foldlM Seen.next? {} with
  | none => false
  | some s =>
    text != [] && s.opened == s.closed && s.colons ≤ 1 && !s.percent && text.getLast? != some '@'

/-- Letters, digits and the marks of a scheme, in any order. -/
def isSchemeChar (c : Char) : Bool :=
  c.isAlphanum || c = '+' || c = '-' || c = '.' || c = '~'

/-- What follows the scheme of a whole address. -/
def afterScheme? (text : List Char) : Option (List Char) :=
  let scheme := text.takeWhile isSchemeChar
  match text.dropWhile isSchemeChar with
  | ':' :: '/' :: '/' :: rest => if scheme.length ≤ 64 then some rest else none
  | _ => none

/-- The target that a text of 65534 bytes at most spells. A server alone has no path. -/
def ofText? (text : String) : Option Target :=
  if 65534 < text.utf8ByteSize then none
  else
    match text.toList with
    | ['*'] => some ⟨"*", []⟩
    | '/' :: rest => ofResource? ('/' :: rest)
    | chars =>
      match afterScheme? chars with
      | some rest =>
        let isDelimiter (c : Char) := c = '/' || c = '?' || c = '#'
        if isServer (rest.takeWhile (!isDelimiter ·)) then
          ofResource? (rest.dropWhile (!isDelimiter ·))
        else none
      | none => if isServer chars then some ⟨"", []⟩ else none

end Target

end Daybook.Http
