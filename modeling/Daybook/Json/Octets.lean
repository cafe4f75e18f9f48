/-! The bytes of a JSON text. A reader checks the bytes of a string only when it makes a text of them, so
that a string which it skips need not be UTF-8. -/

namespace Daybook.Json

/-- What stands for a byte that is no part of a character: a letter and half of a surrogate pair. A
reader takes this in a string that it skips, and nowhere else. -/
def stray : List Char :=
  ['x', '\\', 'u', 'd', 'c', '0', '0']

/-- The characters of the bytes from a position on. -/
def charactersFrom (octets : ByteArray) (start : Nat) : List Char :=
  if start < octets.size then
    match octets.utf8DecodeChar? start with
    | some c => c :: charactersFrom octets (start + c.utf8Size)
    | none => stray ++ charactersFrom octets (start + 1)
  else
    []
termination_by octets.size - start
decreasing_by
  · have := c.utf8Size_pos
    omega
  · omega

/-- The characters of bytes that a JSON reader is given. -/
def charactersOf (octets : ByteArray) : List Char :=
  charactersFrom octets 0

end Daybook.Json
