import Daybook.Http.Form

/-! Addresses of resources, as far as a client needs them: what to send to the server. -/

namespace Daybook.Http.Url

/-- Characters that stand in a path or a query only in escaped form. -/
def isEscaped (c : Char) : Bool :=
  c.toNat ≤ 0x20 || 0x7F ≤ c.toNat || ['"', '<', '>', '`'].contains c

def hexChar (n : Nat) : Char :=
  (Nat.digitChar n).toUpper

def escapeOctet (octet : UInt8) : List Char :=
  ['%', hexChar (octet.toNat / 16), hexChar (octet.toNat % 16)]

def escape (c : Char) : List Char :=
  if isEscaped c then (String.utf8EncodeChar c).flatMap escapeOctet else [c]

/-- What follows `http://`. -/
def afterScheme? (url : List Char) : Option (List Char) :=
  let scheme := "http://".toList
  if (url.take scheme.length).map Char.toLower = scheme then some (url.drop scheme.length) else none

/-- The host and perhaps a port. -/
def authority (rest : List Char) : List Char :=
  rest.takeWhile fun c => c ≠ '/' && c ≠ '?' && c ≠ '#'

/-- The server of an address. -/
def server? (url : String) : Option (List Char) :=
  (afterScheme? url.toList).map authority

/-- Path and query of an address on a server, escaped. A path is never empty, and a fragment is not
sent. Segments `.` and `..` are sent as they are; they are not resolved. -/
def target? (url : String) : Option String := do
  let rest ← afterScheme? url.toList
  if authority rest = [] then none
  else
    let resource := (rest.drop (authority rest).length).takeWhile (· ≠ '#')
    let resource := if resource.head? = some '/' then resource else '/' :: resource
    return String.ofList (resource.flatMap escape)

/-- Appends pairs to the query of an address. Keys and values are plain words and numbers. -/
def withQuery (url : String) (pairs : List (String × String)) : String :=
  if pairs = [] then url
  else
    url ++ (if url.toList.contains '?' then "&" else "?") ++
      String.intercalate "&" (pairs.map fun (key, value) => key ++ "=" ++ value)

end Daybook.Http.Url
