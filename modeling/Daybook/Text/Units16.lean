/-! The 16-bit code units of a text. Characters above U+FFFF take two units. -/

namespace Daybook.Text

def unitsOfChar (c : Char) : List Nat :=
  if c.toNat < 0x10000 then [c.toNat]
  else [0xD800 + (c.toNat - 0x10000) / 0x400, 0xDC00 + (c.toNat - 0x10000) % 0x400]

def units16 (text : String) : List Nat :=
  text.toList.flatMap unitsOfChar

end Daybook.Text
