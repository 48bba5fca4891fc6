import StateGuard.Proofs.Safety.RawUnit
import StateGuard.Proofs.Syntax.Order

/-!
# Walks and the order of the tree

Some walks go up by the recorded parents, others go down by the lists of parts, and the one that all
findings and counts come from pops numbers from a stack.  No walk marks where it has been.  On an
accepted unit they nevertheless tell the same story: what is above, what is below and in which order
are questions about one forest.

## Main results

* `Arena.isWithin_iff_reaches`: going up finds what going down finds.
* `Arena.isChain_ancestors`, `Arena.nodup_ancestors`: the way up.
* `Arena.precedes_of_parent`: every node stands behind its parent.
* `Arena.walksAgree`: what the walks of a tree have to do with each other.
* `RawUnit.walks_follow_the_tree`: **every walk over an accepted unit ends and follows the tree.**
-/

namespace StateGuard

namespace Arena

variable {arena : Arena} {i p a b : arena.Id}

/-! ## Up and down -/

theorem isWithin_iff_mem_ancestors : arena.isWithin a b = true ↔ a = b ∨ b ∈ arena.ancestors a := by
  rw [mem_ancestors_iff]
  constructor
  · intro h
    by_cases hEq : a = b
    · exact .inl hEq
    · exact .inr ⟨hEq, h⟩
  · rintro (rfl | ⟨-, h⟩)
    · exact isWithin_self a
    · exact h

/-- A node reaches another one by going from nodes to their parts. -/
def Reaches (arena : Arena) : arena.Id → arena.Id → Prop :=
  Relation.ReflTransGen fun p c => c ∈ (arena.node p).children

/-- **Going up finds what going down finds.** -/
theorem isWithin_iff_reaches : arena.isWithin a b = true ↔ arena.Reaches b a := by
  constructor
  · intro h
    induction a using induction_parent with
    | step a ih =>
        rcases isWithin_iff.1 h with rfl | ⟨p, hParent, hAbove⟩
        · exact .refl
        · exact .tail (ih p hParent hAbove) ((arena.parent_eq_some_iff a p).1 hParent)
  · intro h
    induction h with
    | refl => exact isWithin_self b
    | tail _ hPart ih => exact isWithin_trans (isWithin_of_mem_children hPart) ih

/-- The subtrees of different parts of a node share no node. -/
theorem disjoint_subtree (ha : a ∈ (arena.node p).children) (hb : b ∈ (arena.node p).children)
    (hNe : a ≠ b) : (arena.subtree a).Disjoint (arena.subtree b) := by
  intro i hia hib
  exact hNe (eq_of_isWithin_parts ha hb (mem_subtree_iff.1 hia) (mem_subtree_iff.1 hib))

/-! ## The way up -/

theorem notMem_ancestors (i : arena.Id) : i ∉ arena.ancestors i := fun h =>
  (mem_ancestors_iff.1 h).1 rfl

theorem nodup_ancestors (i : arena.Id) : (arena.ancestors i).Nodup := by
  induction i using induction_parent with
  | step i ih =>
      cases hParent : arena.parent i with
      | none => simp [ancestors_of_parent_none hParent]
      | some p =>
          rw [ancestors_of_parent hParent, List.nodup_cons]
          exact ⟨notMem_ancestors p, ih p hParent⟩

/-- The ancestors of a node are listed from the nearest upwards, each the parent of the one before. -/
theorem isChain_ancestors (i : arena.Id) :
    (i :: arena.ancestors i).IsChain fun c p => arena.parent c = some p := by
  induction i using induction_parent with
  | step i ih =>
      cases hParent : arena.parent i with
      | none => simp [ancestors_of_parent_none hParent]
      | some p =>
          rw [ancestors_of_parent hParent]
          exact .cons_cons hParent (ih p hParent)

/-! ## Source order -/

/-- **Every node of the tree stands behind its parent.** -/
theorem precedes_of_parent (hi : arena.isWithin i arena.root = true)
    (hParent : arena.parent i = some p) : Precedes p i := by
  have hNe : p ≠ i := by
    rintro rfl
    exact Nat.lt_irrefl _ (depth_lt_of_parent hParent)
  have hAbove : arena.isWithin p arena.root = true := by
    rcases isWithin_iff.1 hi with rfl | ⟨q, hParent', h⟩
    · simp [arena.parent_root] at hParent
    · obtain rfl : p = q := Option.some.inj (hParent.symm.trans hParent')
      exact h
  exact pair_sublist_subtree_iff.2
    ⟨hAbove, hi, .inl ⟨hNe, isWithin_of_parent hParent (isWithin_self p)⟩⟩

/-- What lies below a node that no node lists is not listed either, unless that node is the root. -/
theorem notMem_preorder_of_orphan (hParent : arena.parent i = none) (hRoot : i ≠ arena.root)
    (hBelow : arena.isWithin a i = true) : a ∉ arena.preorder := by
  intro hMem
  rcases isWithin_total hBelow (mem_subtree_iff.1 hMem) with h | h
  · rcases isWithin_iff.1 h with rfl | ⟨p, hParent', -⟩
    · exact hRoot rfl
    · simp [hParent] at hParent'
  · rcases isWithin_iff.1 h with rfl | ⟨p, hParent', -⟩
    · exact hRoot rfl
    · simp [arena.parent_root] at hParent'

/-! ## All walks -/

/-- What the walks through an arena have to do with each other. -/
structure WalksAgree (arena : Arena) : Prop where
  preorder_eq : arena.preorder = arena.subtree arena.root
  subtree_eq : ∀ i, arena.subtree i = i :: (arena.node i).children.flatMap arena.subtree
  mem_preorder : ∀ i, i ∈ arena.preorder ↔ arena.isWithin i arena.root = true
  nodup_preorder : arena.preorder.Nodup
  parent_first : ∀ i p, i ∈ arena.preorder → arena.parent i = some p → [p, i].Sublist arena.preorder
  orphans_omitted : ∀ orphan, arena.parent orphan = none → orphan ≠ arena.root →
    ∀ i, arena.isWithin i orphan = true → i ∉ arena.preorder
  within_iff_above : ∀ a b, arena.isWithin a b = true ↔ a = b ∨ b ∈ arena.ancestors a
  within_iff_reaches : ∀ a b, arena.isWithin a b = true ↔ arena.Reaches b a
  within_refl : ∀ a, arena.isWithin a a = true
  within_antisymm : ∀ a b, arena.isWithin a b = true → arena.isWithin b a = true → a = b
  within_trans : ∀ a b c, arena.isWithin a b = true → arena.isWithin b c = true →
    arena.isWithin a c = true
  parts_apart : ∀ p c d, c ∈ (arena.node p).children → d ∈ (arena.node p).children → c ≠ d →
    (arena.subtree c).Disjoint (arena.subtree d)
  mem_ancestors : ∀ a b, b ∈ arena.ancestors a ↔ a ≠ b ∧ arena.isWithin a b = true
  nodup_ancestors : ∀ i, (arena.ancestors i).Nodup
  nearest_first : ∀ i, (i :: arena.ancestors i).IsChain fun c p => arena.parent c = some p
  strip_strip : ∀ i, arena.stripParens (arena.stripParens i) = arena.stripParens i
  strip_bare : ∀ i inner, arena.node (arena.stripParens i) ≠ .parenthesized inner
  strip_within : ∀ i, arena.isWithin (arena.stripParens i) i = true

theorem walksAgree (arena : Arena) : arena.WalksAgree where
  preorder_eq := rfl
  subtree_eq := subtree_eq
  mem_preorder _ := mem_subtree_iff
  nodup_preorder := nodup_preorder arena
  parent_first _ _ hMem hParent := precedes_of_parent (mem_subtree_iff.1 hMem) hParent
  orphans_omitted _ hParent hRoot _ := notMem_preorder_of_orphan hParent hRoot
  within_iff_above _ _ := isWithin_iff_mem_ancestors
  within_iff_reaches _ _ := isWithin_iff_reaches
  within_refl := isWithin_self
  within_antisymm _ _ := isWithin_antisymm
  within_trans _ _ _ := isWithin_trans
  parts_apart _ _ _ := disjoint_subtree
  mem_ancestors _ _ := mem_ancestors_iff
  nodup_ancestors := nodup_ancestors
  nearest_first := isChain_ancestors
  strip_strip := stripParens_stripParens
  strip_bare := stripParens_ne_parenthesized
  strip_within := isWithin_stripParens

end Arena

namespace RawUnit

/-- **Every walk over an accepted unit ends and follows the tree.**  The stack from which the numbers
below the root are popped runs empty, and they come as in the traversal that visits a node and then
its parts, one after the other.  The ways up and down by number end at every part, and what they find
is one order: that of the parts of the nodes. -/
theorem walks_follow_the_tree {raw : RawUnit} {ctx : Context} (h : raw.accept = .ok ctx) :
    ctx.tree.size = raw.parts.size ∧
      raw.preorder = some (ctx.tree.preorder.map Fin.val) ∧
      (∀ i : ctx.Id, raw.node i = some ((ctx.tree.node i).map Fin.val) ∧
        raw.ancestors i = some ((ctx.tree.ancestors i).map Fin.val) ∧
        (∀ top : ctx.Id, raw.isWithin i top = some (ctx.tree.isWithin i top)) ∧
        raw.stripParens i = some (ctx.tree.stripParens i).val) ∧
      ctx.tree.toArena.WalksAgree := by
  have hAccepted := acceptedAs_of_accept h
  refine ⟨size_of_accept h, hAccepted.preorder_run, fun i => ?_, ctx.tree.walksAgree⟩
  exact ⟨hAccepted.node i, hAccepted.ancestors_run i, hAccepted.isWithin_run i,
    hAccepted.stripParens_run i⟩

/-- The parts of `(r).Value;`, with a negation that no part lists. -/
def withParentheses : RawUnit where
  file := "parentheses.cs"
  parts := #[
    ⟨.compilationUnit [1], .zero⟩,
    ⟨.expressionStatement 2, .zero⟩,
    ⟨.memberAccess 3 "Value", .zero⟩,
    ⟨.parenthesized 4, .zero⟩,
    ⟨.identifier "r", .zero⟩,
    ⟨.unary .not 6, .zero⟩,
    ⟨.identifier "s", .zero⟩]
  root := 0
  typeOf := fun _ => none
  symbolOf := fun _ => none
  config := {}

/-- The negation is left out of the walk through the tree, and the ways up and down end. -/
theorem walks_through_parentheses : ∃ ctx, withParentheses.accept = .ok ctx ∧
    withParentheses.preorder = some [0, 1, 2, 3, 4] ∧
    withParentheses.ancestors 4 = some [3, 2, 1, 0] ∧
    withParentheses.isWithin 6 0 = some false ∧ withParentheses.stripParens 3 = some 4 := by
  have hWalks : ∃ ctx ∈ withParentheses.accept.toOption,
      ctx.tree.preorder.map Fin.val = [0, 1, 2, 3, 4] ∧
      (∃ i : Fin ctx.tree.size, i.val = 4 ∧ (ctx.tree.ancestors i).map Fin.val = [3, 2, 1, 0]) ∧
      (∃ i top : Fin ctx.tree.size, i.val = 6 ∧ top.val = 0 ∧ ctx.tree.isWithin i top = false) ∧
      ∃ i : Fin ctx.tree.size, i.val = 3 ∧ (ctx.tree.stripParens i).val = 4 := by
    decide +kernel
  obtain ⟨ctx, hAccept, hPreorder, ⟨r, hr, hAbove⟩, ⟨orphan, top, hOrphan, hTop, hApart⟩, par, hPar,
    hInner⟩ := hWalks
  have hOk : withParentheses.accept = .ok ctx := by
    cases hCase : withParentheses.accept with
    | error e => simp [hCase, Except.toOption] at hAccept
    | ok ctx' => simpa [hCase, Except.toOption] using hAccept
  obtain ⟨-, hPre, hWalk, -⟩ := walks_follow_the_tree hOk
  refine ⟨ctx, hOk, ?_, ?_, ?_, ?_⟩
  · rw [hPre, hPreorder]
  · rw [← hr, (hWalk r).2.1, hAbove]
  · rw [← hOrphan, ← hTop, (hWalk orphan).2.2.1, hApart]
  · rw [← hPar, (hWalk par).2.2.2, hInner]

end RawUnit

end StateGuard
