import StateGuard.Proofs.Semantics.Agreement
import StateGuard.Proofs.Semantics.Calls

/-!
# Uses agree with declarations

In the oracle that the binder computes for a tree, whatever its shape, every symbol is that of a
declaration, which carries it, too.  A name or field that has a symbol has it from the declaration
that it resolves to, and has no other type than that one.

## Main results

* `isSymbolOf_bindWith`: what a symbol of a node says.
* `uses_agree_with_declarations`: symbols and types of uses and declarations.
-/

namespace StateGuard.Binder

open Arena

variable {tree : Tree} {config : Config} {imports : Imports}

/-- Every symbol is that of the declaration that the node resolves to. -/
theorem isSymbolOf_bindWith {j : tree.Id} {symbol : String}
    (h : (bindWith tree config imports).symbolOf j = some symbol) :
    IsSymbolOf (bindWith tree config imports) j symbol := by
  obtain ⟨hFollowed, hOracle⟩ := hasFollowed_run tree config imports
  rw [← hOracle] at h ⊢
  exact hFollowed.sound.symbols j symbol h

/-- A use of a name: an identifier, or a member that is read through the enclosing object. -/
def Uses (j : tree.Id) (name : String) : Prop :=
  tree.node j = .identifier name ∨
    ∃ receiver, tree.node j = .memberAccess receiver name ∧ tree.isThis receiver = true

theorem Uses.spelling?_eq {j : tree.Id} {name : String} (h : Uses j name) :
    (tree.node j).spelling? = some name := by
  rcases h with hNode | ⟨receiver, hNode, -⟩
  · rw [hNode]; rfl
  · rw [hNode]; rfl

/-- **Uses agree with declarations.** In the oracle of any tree, every symbol is that of a
declaration, made of its name and its node, and the declaration carries it.  A use of a name only
has a symbol of that name.  Two nodes that have symbols have the same one exactly if they resolve to
the same declaration.  If a use has a type, the declaration that its symbol is of has exactly that
type. -/
theorem uses_agree_with_declarations (tree : Tree) (config : Config) :
    (∀ j symbol, (tree.bind config).symbolOf j = some symbol →
      ∃ name d, tree.resolve? j = some d ∧ (tree.node d).declaredName? = some name ∧
        symbol = symbolOf name d ∧ (tree.bind config).symbolOf d = some symbol) ∧
    (∀ j name symbol, Uses j name → (tree.bind config).symbolOf j = some symbol →
      ∃ d, (tree.node d).declaredName? = some name ∧ symbol = symbolOf name d) ∧
    (∀ j k symbol symbol', (tree.bind config).symbolOf j = some symbol →
      (tree.bind config).symbolOf k = some symbol' →
      (symbol = symbol' ↔ tree.resolve? j = tree.resolve? k)) ∧
    ∀ j name d type, Uses j name → (tree.bind config).symbolOf j = some (symbolOf name d) →
      (tree.bind config).typeOf j = some type → (tree.bind config).typeOf d = some type := by
  refine ⟨?_, ?_, ?_, ?_⟩
  · intro j symbol h
    obtain ⟨name, d, -, hResolve, hName, hSymbol, hMarked, -⟩ := isSymbolOf_bindWith h
    exact ⟨name, d, hResolve, hName, hSymbol, hMarked⟩
  · intro j name symbol hUses h
    obtain ⟨name', d, hSpelling, -, hName, hSymbol, -⟩ := isSymbolOf_bindWith h
    obtain rfl := Option.some.inj (hSpelling.symm.trans hUses.spelling?_eq)
    exact ⟨d, hName, hSymbol⟩
  · intro j k symbol symbol' hj hk
    obtain ⟨name, d, -, hResolve, hName, rfl, -⟩ := isSymbolOf_bindWith hj
    obtain ⟨name', d', -, hResolve', hName', rfl, -⟩ := isSymbolOf_bindWith hk
    constructor
    · intro hEq
      rw [hResolve, hResolve', (symbolOf_injective hEq).2]
    · intro hEq
      obtain rfl : d = d' := Option.some.inj (hResolve.symm.trans (hEq.trans hResolve'))
      rw [Option.some.inj (hName.symm.trans hName')]
  · intro j name d type _ h hType
    obtain ⟨name', d', -, -, -, hSymbol, -, hAgree⟩ := isSymbolOf_bindWith h
    rw [(symbolOf_injective hSymbol).2]
    exact hAgree type hType

/-- A field that is read through the enclosing object and by its name alone. -/
theorem field_is_one_declaration :
    ∃ tree, Tree.ofSource id "field.cs" "int x; int f() { return this.x + x; }" = .ok tree ∧
      ∃ j k : tree.Id, (tree.node j).kind = .memberAccess ∧ (tree.node k).kind = .identifier ∧
        tree.resolve? j = tree.resolve? k ∧
        ∃ d, tree.resolve? k = some d ∧ (tree.node d).declaredName? = some "x" := by
  have hEval : ((Tree.ofSource id "field.cs" "int x; int f() { return this.x + x; }").toOption.any
      fun tree => tree.ids.any fun j => tree.ids.any fun k =>
        (tree.node j).kind = .memberAccess && tree.node k = .identifier "x" &&
        (tree.bind {}).symbolOf j = some "x@0" &&
        (tree.bind {}).symbolOf k = some "x@0") = true := by
    decide +kernel
  cases hTree : Tree.ofSource id "field.cs" "int x; int f() { return this.x + x; }" with
  | error fault => simp [hTree, Except.toOption] at hEval
  | ok tree =>
      simp only [hTree, Except.toOption, Option.any_some, List.any_eq_true, Bool.and_eq_true,
        decide_eq_true_eq] at hEval
      obtain ⟨j, -, k, -, ⟨⟨hAccess, hName⟩, hj⟩, hk⟩ := hEval
      obtain ⟨hSymbols, hUses, hSame, -⟩ := uses_agree_with_declarations tree {}
      obtain ⟨name, d, hResolve, hDeclares, hSymbol, -⟩ := hSymbols k _ hk
      obtain ⟨d', hDeclares', hSymbol'⟩ := hUses k "x" _ (.inl hName) hk
      obtain ⟨rfl, -⟩ := symbolOf_injective (hSymbol.symm.trans hSymbol')
      exact ⟨tree, rfl, j, k, hAccess, by rw [hName]; rfl, (hSame j k _ _ hj hk).1 rfl, d, hResolve,
        hDeclares⟩

end StateGuard.Binder
