/-!
# Blank characters

The characters that separate words: the 25 code points with the Unicode
property `White_Space`. Line feeds, tabs and carriage returns are among
them, and so are the no-break spaces; the zero-width space is not.
-/

namespace CritterScript.Text

/-- The code points of `White_Space` as ranges, in increasing order. -/
def blankRanges : List (Nat × Nat) :=
  [(0x9, 0xD), (0x20, 0x20), (0x85, 0x85), (0xA0, 0xA0), (0x1680, 0x1680), (0x2000, 0x200A),
    (0x2028, 0x2029), (0x202F, 0x202F), (0x205F, 0x205F), (0x3000, 0x3000)]

/-- Whether a character separates words. -/
def isBlank (c : Char) : Bool :=
  blankRanges.any fun (low, high) => low ≤ c.toNat && c.toNat ≤ high

/-- The ranges hold 25 code points. -/
example : (blankRanges.map fun (low, high) => high + 1 - low).sum = 25 := by decide

end CritterScript.Text
