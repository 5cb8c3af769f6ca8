import GraphTex.Text

/-!
# Blank characters

Blanks separate tokens. They are the characters with the Unicode property White_Space, which is
wider than the ASCII class of the core library.
-/

namespace GraphTex

/-- The closed ranges of code points with the property White_Space, in increasing order. -/
def blankRanges : List (Nat × Nat) :=
  [(0x9, 0xD), (0x20, 0x20), (0x85, 0x85), (0xA0, 0xA0), (0x1680, 0x1680), (0x2000, 0x200A),
    (0x2028, 0x2029), (0x202F, 0x202F), (0x205F, 0x205F), (0x3000, 0x3000)]

/-- Whether a character is white space. -/
def isBlank (c : Char) : Bool :=
  blankRanges.any fun (low, high) => low ≤ c.toNat && c.toNat ≤ high

end GraphTex
