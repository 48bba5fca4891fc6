/-!
# Comparison without case

Latin letters of the basic alphabet are compared without regard to case, all other characters as
they are.
-/

namespace StateGuard.Text

/-- A text with the letters `A` to `Z` in lower case. -/
def lowerAscii (text : String) : String := String.ofList (text.toList.map Char.toLower)

/-- Whether two texts differ at most in the case of the letters `a` to `z`. -/
def equalCaseless (a b : String) : Bool := lowerAscii a == lowerAscii b

end StateGuard.Text
