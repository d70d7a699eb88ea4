/-!
# Blank texts

The characters of the Unicode property `White_Space`, and the texts made
of nothing else.
-/

namespace EntityMap.Text

/-- The characters with the property `White_Space`. -/
def isBlankChar (c : Char) : Bool :=
  let code := c.toNat
  (0x9 ≤ code && code ≤ 0xD) || code = 0x20 || code = 0x85 || code = 0xA0 || code = 0x1680 ||
    (0x2000 ≤ code && code ≤ 0x200A) || code = 0x2028 || code = 0x2029 || code = 0x202F ||
    code = 0x205F || code = 0x3000

/-- Whether a text is empty or holds only white space. -/
def isBlank (cs : List Char) : Bool :=
  cs.all isBlankChar

end EntityMap.Text
