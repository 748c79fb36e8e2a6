/-!
# Blank characters

The characters with the Unicode `White_Space` property: the ASCII controls from tab to
carriage return, the space, next line, no-break space, ogham space mark, the typographic
spaces from en quad to hair space, the line and paragraph separators, narrow no-break space,
medium mathematical space and the ideographic space. Zero width space and the byte order mark
are not blank.
-/

namespace RuleScript

namespace Text

/-- Closed ranges of code points, ascending and apart, that make up `White_Space`. -/
def blankRanges : List (Nat × Nat) :=
  [(0x09, 0x0D), (0x20, 0x20), (0x85, 0x85), (0xA0, 0xA0), (0x1680, 0x1680),
   (0x2000, 0x200A), (0x2028, 0x2029), (0x202F, 0x202F), (0x205F, 0x205F),
   (0x3000, 0x3000)]

-- twenty-five code points in all, as the property lists them
example : (blankRanges.map fun r => r.2 + 1 - r.1).sum = 25 := by decide

def inRanges (ranges : List (Nat × Nat)) (n : Nat) : Bool :=
  ranges.any fun r => r.1 ≤ n && n ≤ r.2

/-- A blank character separates tokens and is skipped by the scanner. -/
def isBlank (c : Char) : Bool :=
  inRanges blankRanges c.toNat

theorem isBlank_of_isWhitespace (c : Char) (h : c.isWhitespace = true) : isBlank c = true := by
  simp [Char.isWhitespace] at h
  rcases h with ((h | h) | h) | h <;> subst h <;> decide

example : isBlank '　' = true ∧ isBlank '​' = false ∧ isBlank '﻿' = false := by
  decide

end Text

end RuleScript
