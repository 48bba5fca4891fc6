import StateGuard.Text.Ranges

/-!
# Blank characters

The Unicode property White_Space, and trimming by it.
-/

namespace StateGuard.Text

/-- The code points with the property White_Space. -/
def blankRanges : List (Nat × Nat) :=
  [(0x9, 0xd), (0x20, 0x20), (0x85, 0x85), (0xa0, 0xa0), (0x1680, 0x1680), (0x2000, 0x200a),
   (0x2028, 0x2029), (0x202f, 0x202f), (0x205f, 0x205f), (0x3000, 0x3000)]

/-- A character with the Unicode property White_Space. -/
def isBlank (c : Char) : Bool := inRanges blankRanges c.toNat

/-- A text of blank characters only, such as the empty text. -/
def isBlankText (text : String) : Bool := text.toList.all isBlank

end StateGuard.Text
