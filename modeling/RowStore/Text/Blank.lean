/-!
# Blanks

The characters that separate words: those with Unicode's White_Space property.
-/

namespace RowStore.Text

/-- The first and last code point of each run of blanks. -/
def blankRuns : List (Nat × Nat) :=
  [(0x09, 0x0D), (0x20, 0x20), (0x85, 0x85), (0xA0, 0xA0), (0x1680, 0x1680), (0x2000, 0x200A),
   (0x2028, 0x2029), (0x202F, 0x202F), (0x205F, 0x205F), (0x3000, 0x3000)]

def isBlank (c : Char) : Bool :=
  blankRuns.any fun r => r.1 ≤ c.toNat && c.toNat ≤ r.2

end RowStore.Text
