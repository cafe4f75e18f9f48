/-! White space at the ends of a text, by the Unicode property White_Space. -/

namespace Daybook.Text

/-- The code points that have the property White_Space. -/
def isBlank (c : Char) : Bool :=
  (0x09 ≤ c.toNat && c.toNat ≤ 0x0D) || (0x2000 ≤ c.toNat && c.toNat ≤ 0x200A) ||
    [0x20, 0x85, 0xA0, 0x1680, 0x2028, 0x2029, 0x202F, 0x205F, 0x3000].contains c.toNat

def trimStart (text : List Char) : List Char :=
  text.dropWhile isBlank

def trimEnd (text : List Char) : List Char :=
  (text.reverse.dropWhile isBlank).reverse

def trim (text : List Char) : List Char :=
  trimEnd (trimStart text)

theorem not_isBlank_head_trimStart {text : List Char} {c : Char}
    (h : (trimStart text).head? = some c) : ¬isBlank c := by
  have := List.head?_dropWhile_not isBlank text
  simp_all [trimStart]

end Daybook.Text
