import StateGuard.Semantics.Oracle
import StateGuard.Syntax.Walk

/-!
# Locations

When two expressions read the same place in memory: the same variable, the same object, or the same
member of the same place. A call never counts, since two calls may answer differently.
-/

namespace StateGuard

namespace Arena

/-- Whether an expression is the enclosing object, perhaps in parentheses. -/
def isThis (arena : Arena) (i : arena.Id) : Bool :=
  match arena.node (arena.stripParens i) with
  | .this => true
  | _ => false

end Arena

/-- Whether two expressions read the same place. A member of the enclosing object is the same place
as a bare name when both stand for one declaration. -/
def sameLocation (arena : Arena) (oracle : Oracle arena.size) (a b : arena.Id) : Bool :=
  match _h : arena.node (arena.stripParens a), arena.node (arena.stripParens b) with
  | .identifier _, .identifier _ =>
    oracle.sameSymbol (arena.stripParens a) (arena.stripParens b)
  | .this, .this => true
  | .memberAccess receiver member, .memberAccess receiver' member' =>
    member == member' && sameLocation arena oracle receiver receiver'
  | .identifier _, .memberAccess receiver _ =>
    arena.isThis receiver && oracle.sameSymbol (arena.stripParens a) (arena.stripParens b)
  | .memberAccess receiver _, .identifier _ =>
    arena.isThis receiver && oracle.sameSymbol (arena.stripParens a) (arena.stripParens b)
  | _, _ => false
termination_by arena.height a
decreasing_by
  exact Arena.height_lt_of_mem_children_stripParens (by grind [Node.children])

end StateGuard
