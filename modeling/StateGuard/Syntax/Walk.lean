import StateGuard.Syntax.Arena

/-!
# Walks through an arena

Going up from a node to its ancestors, down through parentheses, and down through all of a subtree
in source order.
-/

namespace StateGuard.Arena

variable (arena : Arena)

/-- The nodes above `i`, nearest first. -/
def ancestors (i : arena.Id) : List arena.Id :=
  match _h : arena.parent i with
  | none => []
  | some p => p :: ancestors p
termination_by arena.depth i
decreasing_by exact depth_lt_of_parent _h

/-- Whether `i` is `top` or lies below it. -/
def isWithin (i top : arena.Id) : Bool :=
  if i = top then true
  else
    match _h : arena.parent i with
    | none => false
    | some p => isWithin p top
termination_by arena.depth i
decreasing_by exact depth_lt_of_parent _h

/-- The expression inside any parentheses around it. -/
def stripParens (i : arena.Id) : arena.Id :=
  match _h : arena.node i with
  | .parenthesized inner => stripParens inner
  | _ => i
termination_by arena.height i
decreasing_by exact height_lt_of_mem_children (by simp [_h, Node.children])

/-- The node `i` and all nodes below it, each before its parts and these in source order. -/
def subtree (i : arena.Id) : List arena.Id :=
  i :: (arena.node i).children.attach.flatMap fun c => subtree c.1
termination_by arena.height i
decreasing_by exact height_lt_of_mem_children c.2

/-- The nodes of the tree in source order. Orphans are left out. -/
def preorder : List arena.Id := arena.subtree arena.root

variable {arena}

/-- A subtree is its top and then the subtrees of its parts. -/
theorem subtree_eq (i : arena.Id) :
    arena.subtree i = i :: (arena.node i).children.flatMap arena.subtree := by
  rw [subtree, List.flatMap_def, List.flatMap_def]
  simp

/-- Taking off parentheses never goes up. -/
theorem height_stripParens_le (i : arena.Id) :
    arena.height (arena.stripParens i) ≤ arena.height i := by
  fun_induction stripParens arena i with
  | case1 i inner h ih =>
      have hInner : inner ∈ (arena.node i).children := by simp [h, Node.children]
      have := height_lt_of_mem_children hInner
      omega
  | case2 i h => exact Nat.le_refl _

/-- A part of the expression inside the parentheses lies lower than the parentheses. -/
theorem height_lt_of_mem_children_stripParens {c i : arena.Id}
    (h : c ∈ (arena.node (arena.stripParens i)).children) : arena.height c < arena.height i :=
  Nat.lt_of_lt_of_le (height_lt_of_mem_children h) (height_stripParens_le i)

end StateGuard.Arena
