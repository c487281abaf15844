/-!
# Character classes and byte lengths

Source text is UTF-8 and positions count bytes.  White space is the Unicode
property `White_Space`; names and numbers are ASCII.
-/

namespace Shading

/-- The Unicode property `White_Space`. -/
def isBlank (c : Char) : Bool :=
  let n := c.toNat
  (0x09 ≤ n && n ≤ 0x0d) || n = 0x20 || n = 0x85 || n = 0xa0 || n = 0x1680 ||
    (0x2000 ≤ n && n ≤ 0x200a) || n = 0x2028 || n = 0x2029 || n = 0x202f || n = 0x205f || n = 0x3000

def isAscii (c : Char) : Bool := c.toNat < 0x80

/-- First character of a name. -/
def isNameStart (c : Char) : Bool := c.isAlpha || c = '_'

/-- Further characters of a name. -/
def isNamePart (c : Char) : Bool := c.isAlphanum || c = '_'

/-- Number of bytes of a text in UTF-8. -/
def byteLength : List Char → Nat
  | [] => 0
  | c :: rest => c.utf8Size + byteLength rest

theorem byteLength_append (a b : List Char) : byteLength (a ++ b) = byteLength a + byteLength b := by
  induction a with
  | nil => simp [byteLength]
  | cons c rest ih => simp [byteLength, ih, Nat.add_assoc]

end Shading
