import StateGuard.Proofs.Semantics.Binding
import StateGuard.Proofs.Source.Programs

/-!
# Names stand for declarations

Binding the tree of a text gives every name the declaration that the scoping rule chooses, and no
symbol to a name that no declaration qualifies for.  The tree is a program, so parameters belong to
the method or lambda that they stand in, and methods and fields belong to the unit.

## Main results

* `Arena.IsProgram.owner_of_parameter`, `Arena.IsProgram.owner_of_member`: what these belong to.
* `Binder.names_resolve_lexically`: names have the symbols of the declarations chosen for them.
-/

namespace StateGuard

namespace Arena.IsProgram

variable {arena : Arena} (h : arena.IsProgram) {d : arena.Id}
include h

/-- A parameter belongs to the method or lambda that it stands in. -/
theorem owner_of_parameter (hKind : (arena.node d).kind = .parameter) :
    arena.parent d = some (arena.owner d) ∧
      ((arena.node (arena.owner d)).kind = .method ∨
        (arena.node (arena.owner d)).kind = .lambda) := by
  obtain ⟨p, hParent, hParam⟩ := h.mem_params_of_parameter hKind
  have hNode : (arena.node p).opensScope = true ∧
      ((arena.node p).kind = .method ∨ (arena.node p).kind = .lambda) := by
    cases hNode : arena.node p <;> simp_all [Node.params, Node.opensScope, Node.kind]
  rw [owner_of_parent hParent, if_pos hNode.1]
  exact ⟨hParent, hNode.2⟩

/-- Methods and fields belong to the unit. -/
theorem owner_of_member
    (hMember : (arena.node d).kind = .method ∨ arena.parent d = some arena.root) :
    arena.owner d = arena.root := by
  have hParent : arena.parent d = some arena.root := by
    rcases hMember with hMethod | hParent
    · exact h.parent_of_method hMethod
    · exact hParent
  rw [owner_of_parent hParent, h.not_opensScope_root, owner_root]
  rfl

end Arena.IsProgram

namespace Binder

open Arena

/-- **Names resolve lexically.** In the tree of a text, a name has a symbol exactly when some
declaration of the name qualifies, and then it is that of the declaration that the rule chooses: the
latest one of the innermost scope.  Parameters belong to their method or lambda, methods and fields
to the unit. -/
theorem names_resolve_lexically {resolve : String → String} {file source : String} {tree : Tree}
    (hTree : Tree.ofSource resolve file source = .ok tree) (config : Config) (imports : Imports) :
    (∀ d, (tree.node d).kind = .parameter → tree.parent d = some (tree.owner d) ∧
      ((tree.node (tree.owner d)).kind = .method ∨ (tree.node (tree.owner d)).kind = .lambda)) ∧
    (∀ d, (tree.node d).kind = .method ∨ tree.parent d = some tree.root →
      tree.owner d = tree.root) ∧
    ∀ i name, tree.node i = .identifier name →
      (∀ symbol, (bindWith tree config imports).symbolOf i = some symbol ↔
        ∃ d : tree.Id, IsChosen name d i ∧ symbol = name ++ "@" ++ toString d.val) ∧
      ((bindWith tree config imports).symbolOf i = none ↔ ∀ d, ¬ Qualifies name d i) := by
  have hProgram := Tree.isProgram_ofSource hTree
  refine ⟨fun d => hProgram.owner_of_parameter, fun d => hProgram.owner_of_member, ?_⟩
  intro i name hName
  have hi : i ≠ tree.root := by
    rintro rfl
    simpa [hName, Node.kind] using hProgram.root_kind
  rw [symbolOf_bindWith hProgram hName]
  exact ⟨fun symbol => hProgram.meaning_eq_some_iff hi, hProgram.meaning_eq_none_iff hi⟩

/-- A parameter hides the field of the same name. -/
theorem parameter_hides_field :
    ∃ tree, Tree.ofSource id "hidden.cs" "int x; int f(int x) { return x; }" = .ok tree ∧
      ∃ i d, tree.node i = .identifier "x" ∧ IsChosen "x" d i ∧ (tree.node d).kind = .parameter := by
  have hEval : ((Tree.ofSource id "hidden.cs" "int x; int f(int x) { return x; }").toOption.any
      fun tree => tree.ids.any fun i => tree.node i = .identifier "x" &&
        (bindWith tree {} {}).symbolOf i = some "x@1" &&
        tree.ids.all fun d => "x@1" ≠ "x" ++ "@" ++ toString d.val ||
          (tree.node d).kind = .parameter) = true := by
    decide +kernel
  cases hTree : Tree.ofSource id "hidden.cs" "int x; int f(int x) { return x; }" with
  | error fault => simp [hTree, Except.toOption] at hEval
  | ok tree =>
      simp only [hTree, Except.toOption, Option.any_some, List.any_eq_true, Bool.and_eq_true,
        decide_eq_true_eq, List.all_eq_true, Bool.or_eq_true] at hEval
      obtain ⟨i, -, ⟨hName, hSymbol⟩, hOnly⟩ := hEval
      obtain ⟨d, hChosen, hEq⟩ :=
        (((names_resolve_lexically hTree {} {}).2.2 i "x" hName).1 "x@1").1 hSymbol
      exact ⟨tree, rfl, i, d, hName, hChosen, (hOnly d (by simp [Arena.ids])).resolve_left (· hEq)⟩

end Binder

end StateGuard
