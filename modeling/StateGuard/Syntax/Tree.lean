import StateGuard.Fault
import StateGuard.Span
import StateGuard.Syntax.Arena

/-!
# Syntax trees

A tree is an arena with the file it was read from and a span for every node. Trees are put
together from parts: nodes that refer to each other by position, each with its span.
-/

namespace StateGuard

/-- A node of a tree under construction, with its span. -/
structure Part where
  node : Node Nat
  span : Span
  deriving DecidableEq, Repr

/-- The syntax tree of one file. -/
structure Tree extends Arena where
  file : String
  span : Fin size → Span

/-- The fault of a tree that is not a forest. -/
def ArenaError.toFault (error : ArenaError) (file : String) : Fault :=
  (Fault.of .tree error.message).inFile file

namespace Arena

/-- An accepted table keeps its size. -/
theorem size_ofNodes {nodes : Array (Node Nat)} {root : Nat} {arena : Arena}
    (h : ofNodes nodes root = .ok arena) : arena.size = nodes.size := by
  unfold ofNodes at h
  split at h
  · dsimp only at h
    split at h
    · simp at h
    · split at h
      · simp at h
      · simp only [Except.ok.injEq] at h
        subst h
        rfl
  · simp at h

end Arena

namespace Tree

/-- The tree of a list of parts with a chosen root. -/
def ofParts (file : String) (parts : Array Part) (root : Nat) : Except ArenaError Tree :=
  match h : Arena.ofNodes (parts.map (·.node)) root with
  | .error e => .error e
  | .ok arena =>
    .ok { arena with
      file := file
      span := fun i =>
        have : i.val < parts.size := by simpa [Arena.size_ofNodes h] using i.isLt
        parts[i.val].span }

/-- The parts of a tree, in order of position. -/
def parts (tree : Tree) : List Part :=
  tree.ids.map fun i => ⟨(tree.node i).map Fin.val, tree.span i⟩

/-- The position of a number, if the tree has it. -/
def id? (tree : Tree) (n : Nat) : Option tree.Id :=
  if h : n < tree.size then some ⟨n, h⟩ else none

end Tree

end StateGuard
