import StateGuard.Guard.Fact
import StateGuard.Syntax.Walk

/-!
# Branches

The constructs that run a part of themselves only for one outcome of a condition. What follows such
a construct is under neither branch.
-/

namespace StateGuard.Arena

variable (arena : Arena)

/-- The condition of a construct with branches. -/
def condition? (i : arena.Id) : Option arena.Id :=
  match arena.node i with
  | .ifStatement condition _ _ => some condition
  | .conditional condition _ _ => some condition
  | .binary .and left _ => some left
  | .binary .or left _ => some left
  | _ => none

/-- The part of a construct that runs only for one outcome of its condition. -/
def branch? (i : arena.Id) : Branch → Option arena.Id
  | .whenTrue =>
    match arena.node i with
    | .ifStatement _ thenBranch _ => some thenBranch
    | .conditional _ whenTrue _ => some whenTrue
    | .binary .and _ right => some right
    | _ => none
  | .whenFalse =>
    match arena.node i with
    | .ifStatement _ _ elseBranch => elseBranch
    | .conditional _ _ whenFalse => some whenFalse
    | .binary .or _ right => some right
    | _ => none

/-- Whether a node lies in a branch of a construct. -/
def isUnder (i construct : arena.Id) (branch : Branch) : Bool :=
  match arena.branch? construct branch with
  | some part => arena.isWithin i part
  | none => false

end StateGuard.Arena
