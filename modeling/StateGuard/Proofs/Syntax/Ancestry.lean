import Mathlib.Data.List.Nodup
import StateGuard.Syntax.Walk

/-!
# Ancestors and subtrees

Going up and going down meet: the nodes of a subtree are those that lie within its top, each of them
once.  The two inductions at the beginning follow the two measures of an arena.

## Main results

* `mem_subtree_iff`: a subtree lists exactly the nodes within its top.
* `nodup_subtree`: it lists none of them twice.
* `isWithin_total`: the nodes above a node lie on one line.
* `mem_ancestors_iff`: the ancestors of a node are the other nodes it lies within.
-/

namespace StateGuard.Arena

variable {arena : Arena}

/-! ## Induction -/

/-- What holds of a node as soon as it holds of its parts holds of every node. -/
theorem induction_parts {motive : arena.Id → Prop}
    (step : ∀ i, (∀ c ∈ (arena.node i).children, motive c) → motive i) (i : arena.Id) :
    motive i := by
  induction h : arena.height i using Nat.strongRecOn generalizing i with
  | ind height ih =>
      apply step
      intro c hc
      exact ih _ (h ▸ height_lt_of_mem_children hc) c rfl

/-- What holds of a node as soon as it holds of its parent holds of every node. -/
theorem induction_parent {motive : arena.Id → Prop}
    (step : ∀ i, (∀ p, arena.parent i = some p → motive p) → motive i) (i : arena.Id) :
    motive i := by
  induction h : arena.depth i using Nat.strongRecOn generalizing i with
  | ind depth ih =>
      apply step
      intro p hp
      exact ih _ (h ▸ depth_lt_of_parent hp) p rfl

/-! ## Lying within -/

theorem isWithin_iff {i top : arena.Id} : arena.isWithin i top = true ↔
    i = top ∨ ∃ p, arena.parent i = some p ∧ arena.isWithin p top = true := by
  rw [isWithin]
  by_cases hEq : i = top
  · simp [hEq]
  · rw [if_neg hEq]
    split
    · next hParent => simp [hEq, hParent]
    · next p hParent => simp [hEq, hParent]

@[simp]
theorem isWithin_self (i : arena.Id) : arena.isWithin i i = true := isWithin_iff.2 (.inl rfl)

theorem isWithin_of_parent {i p top : arena.Id} (hParent : arena.parent i = some p)
    (h : arena.isWithin p top = true) : arena.isWithin i top = true :=
  isWithin_iff.2 (.inr ⟨p, hParent, h⟩)

theorem isWithin_of_mem_children {c p : arena.Id} (h : c ∈ (arena.node p).children) :
    arena.isWithin c p = true :=
  isWithin_of_parent ((arena.parent_eq_some_iff c p).2 h) (isWithin_self p)

theorem ne_root_of_mem_children {c p : arena.Id} (hc : c ∈ (arena.node p).children) :
    c ≠ arena.root := by
  rintro rfl
  have := (arena.parent_eq_some_iff arena.root p).2 hc
  simp [arena.parent_root] at this

/-- A node that lies within another one is that node or lies within one of its parts. -/
theorem isWithin_iff_part {i top : arena.Id} : arena.isWithin i top = true ↔
    i = top ∨ ∃ c ∈ (arena.node top).children, arena.isWithin i c = true := by
  constructor
  · induction i using induction_parent with
    | step i ih =>
        intro h
        rcases isWithin_iff.1 h with rfl | ⟨p, hParent, hWithin⟩
        · exact .inl rfl
        · rcases ih p hParent hWithin with rfl | ⟨c, hc, hBelow⟩
          · exact .inr ⟨i, (arena.parent_eq_some_iff i p).1 hParent, isWithin_self i⟩
          · exact .inr ⟨c, hc, isWithin_of_parent hParent hBelow⟩
  · rintro (rfl | ⟨c, hc, hBelow⟩)
    · exact isWithin_self i
    · induction i using induction_parent with
      | step i ih =>
          rcases isWithin_iff.1 hBelow with rfl | ⟨p, hParent, hWithin⟩
          · exact isWithin_of_mem_children hc
          · exact isWithin_of_parent hParent (ih p hParent hWithin)

theorem isWithin_of_part {i c top : arena.Id} (h : arena.isWithin i c = true)
    (hc : c ∈ (arena.node top).children) : arena.isWithin i top = true :=
  isWithin_iff_part.2 (.inr ⟨c, hc, h⟩)

theorem stripParens_of_bare {i : arena.Id} (h : ∀ inner, arena.node i ≠ .parenthesized inner) :
    arena.stripParens i = i := by
  rw [stripParens]
  split
  · next inner hNode => exact absurd hNode (h inner)
  · rfl

theorem stripParens_ne_parenthesized (i inner : arena.Id) :
    arena.node (arena.stripParens i) ≠ .parenthesized inner := by
  fun_induction stripParens arena i with
  | case1 i inner' hNode ih => exact ih
  | case2 i hNode => exact hNode inner

theorem stripParens_stripParens (i : arena.Id) :
    arena.stripParens (arena.stripParens i) = arena.stripParens i :=
  stripParens_of_bare (stripParens_ne_parenthesized i)

theorem isWithin_stripParens (i : arena.Id) :
    arena.isWithin (arena.stripParens i) i = true := by
  fun_induction stripParens arena i with
  | case1 i inner h ih =>
      exact isWithin_of_part ih (by simp [h, Node.children])
  | case2 i h => exact isWithin_self i

theorem isWithin_trans {i j k : arena.Id} (hij : arena.isWithin i j = true)
    (hjk : arena.isWithin j k = true) : arena.isWithin i k = true := by
  induction i using induction_parent with
  | step i ih =>
      rcases isWithin_iff.1 hij with rfl | ⟨p, hParent, hWithin⟩
      · exact hjk
      · exact isWithin_of_parent hParent (ih p hParent hWithin)

/-- What lies within a node lies at least as deep. -/
theorem depth_le_of_isWithin {i top : arena.Id} (h : arena.isWithin i top = true) :
    arena.depth top ≤ arena.depth i := by
  induction i using induction_parent with
  | step i ih =>
      rcases isWithin_iff.1 h with rfl | ⟨p, hParent, hWithin⟩
      · exact Nat.le_refl _
      · have := ih p hParent hWithin
        have := depth_lt_of_parent hParent
        omega

/-- What lies within a part lies deeper than the node. -/
theorem depth_lt_of_isWithin_part {i c top : arena.Id} (hc : c ∈ (arena.node top).children)
    (h : arena.isWithin i c = true) : arena.depth top < arena.depth i :=
  Nat.lt_of_lt_of_le (depth_lt_of_parent ((arena.parent_eq_some_iff c top).2 hc))
    (depth_le_of_isWithin h)

theorem isWithin_antisymm {i j : arena.Id} (hij : arena.isWithin i j = true)
    (hji : arena.isWithin j i = true) : i = j := by
  rcases isWithin_iff_part.1 hij with rfl | ⟨c, hc, hBelow⟩
  · rfl
  · have := depth_lt_of_isWithin_part hc hBelow
    have := depth_le_of_isWithin hji
    omega

/-- The nodes that a node lies within lie on one line. -/
theorem isWithin_total {i a b : arena.Id} (ha : arena.isWithin i a = true)
    (hb : arena.isWithin i b = true) :
    arena.isWithin a b = true ∨ arena.isWithin b a = true := by
  induction i using induction_parent with
  | step i ih =>
      rcases isWithin_iff.1 ha with rfl | ⟨p, hParent, hWithin⟩
      · exact .inl hb
      · rcases isWithin_iff.1 hb with rfl | ⟨q, hParent', hWithin'⟩
        · exact .inr ha
        · obtain rfl : p = q := Option.some.inj (hParent.symm.trans hParent')
          exact ih p hParent hWithin hWithin'

/-- Nothing lies within two parts of one node. -/
theorem eq_of_isWithin_parts {i c d p : arena.Id} (hc : c ∈ (arena.node p).children)
    (hd : d ∈ (arena.node p).children) (hic : arena.isWithin i c = true)
    (hid : arena.isWithin i d = true) : c = d := by
  have hDepthC := arena.depth_of_parent c p ((arena.parent_eq_some_iff c p).2 hc)
  have hDepthD := arena.depth_of_parent d p ((arena.parent_eq_some_iff d p).2 hd)
  -- parts of one node are equally deep, so neither lies within a part of the other
  rcases isWithin_total hic hid with h | h
  · rcases isWithin_iff_part.1 h with rfl | ⟨e, he, hBelow⟩
    · rfl
    · have := depth_lt_of_isWithin_part he hBelow
      omega
  · rcases isWithin_iff_part.1 h with rfl | ⟨e, he, hBelow⟩
    · rfl
    · have := depth_lt_of_isWithin_part he hBelow
      omega

/-! ## Subtrees -/

/-- **A subtree lists exactly the nodes within its top.** -/
theorem mem_subtree_iff {i top : arena.Id} :
    i ∈ arena.subtree top ↔ arena.isWithin i top = true := by
  induction top using induction_parts with
  | step top ih =>
      rw [subtree_eq, List.mem_cons, List.mem_flatMap, isWithin_iff_part]
      constructor
      · rintro (rfl | ⟨c, hc, hMem⟩)
        · exact .inl rfl
        · exact .inr ⟨c, hc, (ih c hc).1 hMem⟩
      · rintro (rfl | ⟨c, hc, hBelow⟩)
        · exact .inl rfl
        · exact .inr ⟨c, hc, (ih c hc).2 hBelow⟩

/-- **A subtree lists no node twice.** -/
theorem nodup_subtree (top : arena.Id) : (arena.subtree top).Nodup := by
  induction top using induction_parts with
  | step top ih =>
      rw [subtree_eq, List.nodup_cons]
      constructor
      · intro hMem
        obtain ⟨c, hc, hBelow⟩ := List.mem_flatMap.1 hMem
        exact Nat.lt_irrefl _ (depth_lt_of_isWithin_part hc (mem_subtree_iff.1 hBelow))
      · rw [List.nodup_flatMap]
        refine ⟨ih, ?_⟩
        refine (arena.children_nodup top).imp_of_mem ?_
        intro c d hc hd hNe i hic hid
        exact hNe (eq_of_isWithin_parts hc hd (mem_subtree_iff.1 hic) (mem_subtree_iff.1 hid))

theorem nodup_preorder (arena : Arena) : arena.preorder.Nodup := nodup_subtree arena.root

/-! ## Ancestors -/

theorem ancestors_of_parent {i p : arena.Id} (h : arena.parent i = some p) :
    arena.ancestors i = p :: arena.ancestors p := by
  rw [ancestors]
  split
  · next hNone => simp [hNone] at h
  · next q hParent =>
      obtain rfl : q = p := Option.some.inj (hParent.symm.trans h)
      rfl

theorem ancestors_of_parent_none {i : arena.Id} (h : arena.parent i = none) :
    arena.ancestors i = [] := by
  rw [ancestors]
  split
  · rfl
  · next p hParent => simp [hParent] at h

/-- **The ancestors of a node are the other nodes it lies within.** -/
theorem mem_ancestors_iff {i a : arena.Id} :
    a ∈ arena.ancestors i ↔ i ≠ a ∧ arena.isWithin i a = true := by
  induction i using induction_parent with
  | step i ih =>
      cases hParent : arena.parent i with
      | none =>
          rw [ancestors_of_parent_none hParent, isWithin_iff]
          simp [hParent]
      | some p =>
          rw [ancestors_of_parent hParent, List.mem_cons, ih p hParent]
          constructor
          · rintro (rfl | ⟨_, hWithin⟩)
            · refine ⟨?_, isWithin_of_parent hParent (isWithin_self a)⟩
              rintro rfl
              exact Nat.lt_irrefl _ (depth_lt_of_parent hParent)
            · refine ⟨?_, isWithin_of_parent hParent hWithin⟩
              rintro rfl
              have := depth_le_of_isWithin hWithin
              have := depth_lt_of_parent hParent
              omega
          · rintro ⟨hNe, hWithin⟩
            rcases isWithin_iff.1 hWithin with rfl | ⟨q, hParent', hAbove⟩
            · exact absurd rfl hNe
            · obtain rfl : p = q := Option.some.inj (hParent.symm.trans hParent')
              by_cases hEq : p = a
              · exact .inl hEq.symm
              · exact .inr ⟨hEq, hAbove⟩

end StateGuard.Arena
