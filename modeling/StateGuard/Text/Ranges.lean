/-!
# Ranges of code points

Membership in a sorted list of disjoint ranges, the form in which character properties are kept.
The search stops at the first range that starts beyond the code point.
-/

namespace StateGuard.Text

/-- Whether a sorted list of closed ranges covers `code`. -/
def inRanges : List (Nat × Nat) → Nat → Bool
  | [], _ => false
  | (lo, hi) :: rest, code =>
    if code < lo then false
    else if code ≤ hi then true
    else inRanges rest code

end StateGuard.Text
