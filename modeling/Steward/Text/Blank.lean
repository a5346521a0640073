/-!
# Blank characters

The characters with the Unicode property White_Space, and trimming by them.
-/

namespace Steward

/-- Inclusive ranges of the code points with the property White_Space. -/
def blankRanges : List (Nat × Nat) :=
  [(0x9, 0xd), (0x20, 0x20), (0x85, 0x85), (0xa0, 0xa0), (0x1680, 0x1680), (0x2000, 0x200a),
    (0x2028, 0x2029), (0x202f, 0x202f), (0x205f, 0x205f), (0x3000, 0x3000)]

/-- Whether a character is blank. -/
def isBlank (c : Char) : Bool := blankRanges.any fun (low, high) => low ≤ c.toNat && c.toNat ≤ high

/-- A text without the blank characters at its end. -/
def dropBlankEnd (text : List Char) : List Char := (text.reverse.dropWhile isBlank).reverse

/-- A text without the blank characters at its two ends. -/
def trimBlank (text : List Char) : List Char := dropBlankEnd (text.dropWhile isBlank)

end Steward
