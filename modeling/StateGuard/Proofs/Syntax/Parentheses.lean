import StateGuard.Guard.Branching
import StateGuard.Proofs.Syntax.Ancestry
import StateGuard.Proofs.Syntax.Embedding

/-!
# Inserted parentheses

A tree with parentheses inserted is described from its own side: every node is an inserted pair of
parentheses or the one copy of a node of the other tree, and `core` says of which.  An inserted pair has
the core of what it stands around, so going up or down in one tree is going up or down in the other, with
some steps on the spot.

What a call hands over as a lambda or an out variable and what a conditional access reads behind its
receiver are looked at without taking off parentheses, so none may stand around them.

## Main results

* `Insertion.core_stripParens`: taking off parentheses leads to copies of the same node.
* `Insertion.parent_core_eq_none`, `Insertion.eq_of_parents`: what stands outermost.
* `Insertion.isWithin_iff_core`: a copy lies within the same nodes.
-/

namespace StateGuard.Arena

/-- The second tree is the first one with parentheses inserted. -/
structure Insertion (A B : Arena) where
  /-- The node that a node stands for. -/
  core : B.Id → A.Id
  /-- Whether a node is an inserted pair of parentheses. -/
  inserted : B.Id → Bool
  parens : ∀ {p}, inserted p = true → ∃ inner, B.node p = .parenthesized inner ∧ core inner = core p
  node_core : ∀ {p}, inserted p = false → A.node (core p) = (B.node p).map core
  exists_copy : ∀ i, ∃ p, inserted p = false ∧ core p = i
  copy_unique : ∀ {p q}, inserted p = false → inserted q = false → core p = core q → p = q
  bare_rest : ∀ {p receiver rest}, inserted p = false →
    B.node p = .conditionalAccess receiver rest → inserted rest = false
  bare_argument : ∀ {p callee args}, inserted p = false → B.node p = .invocation callee args →
    ∀ arg ∈ args, (A.node (core arg.value)).kind = .lambda ∨
      (A.node (core arg.value)).kind = .outVariable → inserted arg.value = false

namespace Insertion

variable {A B : Arena} (ins : Insertion A B) {p q : B.Id}

/-! ## Going down -/

/-- Every node but a pair of parentheses is a copy. -/
theorem copy_of_bare (h : ∀ inner, B.node p ≠ .parenthesized inner) : ins.inserted p = false := by
  rw [← Bool.not_eq_true]
  intro hInserted
  obtain ⟨inner, hNode, -⟩ := ins.parens hInserted
  exact h inner hNode

theorem copy_stripParens (p : B.Id) : ins.inserted (B.stripParens p) = false :=
  ins.copy_of_bare (stripParens_ne_parenthesized p)

/-- **Taking off parentheses leads to copies of the same node.** -/
theorem core_stripParens (p : B.Id) : ins.core (B.stripParens p) = A.stripParens (ins.core p) := by
  fun_induction stripParens B p with
  | case1 p inner hNode ih =>
      rw [ih]
      cases hInserted : ins.inserted p with
      | true =>
          obtain ⟨inner', hNode', hCore⟩ := ins.parens hInserted
          obtain rfl := Node.parenthesized.inj (hNode.symm.trans hNode')
          rw [hCore]
      | false =>
          have hCore := ins.node_core hInserted
          rw [hNode, Node.map_parenthesized] at hCore
          rw [stripParens.eq_def A (ins.core p), hCore]
  | case2 p hNode =>
      refine (stripParens_of_bare fun inner hCore => ?_).symm
      rw [ins.node_core (ins.copy_of_bare hNode)] at hCore
      have hKind := congrArg Node.kind hCore
      rw [Node.kind_map] at hKind
      cases hBare : B.node p with
      | parenthesized inner' => exact hNode inner' hBare
      | _ => simp [hBare, Node.kind] at hKind

theorem node_stripParens (p : B.Id) :
    A.node (A.stripParens (ins.core p)) = (B.node (B.stripParens p)).map ins.core := by
  rw [← ins.core_stripParens, ins.node_core (ins.copy_stripParens p)]

/-- A copy of its core lies within every node. -/
theorem exists_copy_within (p : B.Id) :
    ∃ k, ins.inserted k = false ∧ ins.core k = ins.core p ∧ B.isWithin k p = true := by
  induction p using induction_parts with
  | step p ih =>
      cases hInserted : ins.inserted p with
      | false => exact ⟨p, hInserted, rfl, isWithin_self p⟩
      | true =>
          obtain ⟨inner, hNode, hCore⟩ := ins.parens hInserted
          have hPart : inner ∈ (B.node p).children := by simp [hNode, Node.children]
          obtain ⟨k, hCopy, hSame, hWithin⟩ := ih inner hPart
          exact ⟨k, hCopy, hSame.trans hCore, isWithin_of_part hWithin hPart⟩

/-! ## Going up -/

variable {ins}

theorem core_of_inserted (hq : ins.inserted q = true) (h : B.parent p = some q) :
    ins.core p = ins.core q := by
  obtain ⟨inner, hNode, hCore⟩ := ins.parens hq
  have hPart := (B.parent_eq_some_iff p q).1 h
  rw [hNode, Node.children, List.mem_singleton] at hPart
  rw [hPart, hCore]

theorem parent_core (hq : ins.inserted q = false) (h : B.parent p = some q) :
    A.parent (ins.core p) = some (ins.core q) := by
  rw [A.parent_eq_some_iff, ins.node_core hq, Node.children_map]
  exact List.mem_map_of_mem ((B.parent_eq_some_iff p q).1 h)

theorem isWithin_core (h : B.isWithin p q = true) :
    A.isWithin (ins.core p) (ins.core q) = true := by
  induction p using induction_parent with
  | step p ih =>
      rcases isWithin_iff.1 h with rfl | ⟨m, hParent, hWithin⟩
      · exact isWithin_self _
      · have hAbove := ih m hParent hWithin
        cases hm : ins.inserted m with
        | true => rwa [core_of_inserted hm hParent]
        | false => exact isWithin_of_parent (parent_core hm hParent) hAbove

/-- The parts of a copy have different cores. -/
theorem eq_of_core_eq_of_parts {c d : B.Id} (hq : ins.inserted q = false)
    (hc : c ∈ (B.node q).children) (hd : d ∈ (B.node q).children) (h : ins.core c = ins.core d) :
    c = d := by
  have hNodup := A.children_nodup (ins.core q)
  rw [ins.node_core hq, Node.children_map] at hNodup
  exact List.inj_on_of_nodup_map hNodup hc hd h

/-- **What stands outermost around its core is determined by it.** -/
theorem eq_of_parents {c d m : B.Id} (hq : ins.inserted q = false) (hm : ins.inserted m = false)
    (hc : B.parent c = some q) (hd : B.parent d = some m) (h : ins.core c = ins.core d) : c = d := by
  have hUp : A.parent (ins.core c) = some (ins.core m) := h ▸ parent_core hm hd
  obtain rfl : q = m :=
    ins.copy_unique hq hm (Option.some.inj ((parent_core hq hc).symm.trans hUp))
  exact eq_of_core_eq_of_parts hq ((B.parent_eq_some_iff c q).1 hc) ((B.parent_eq_some_iff d q).1 hd) h

/-- A node without a parent stands for one. -/
theorem parent_core_eq_none (h : B.parent p = none) : A.parent (ins.core p) = none := by
  rw [Option.eq_none_iff_forall_ne_some]
  intro j hj
  obtain ⟨q, hq, rfl⟩ := ins.exists_copy j
  have hPart := (A.parent_eq_some_iff _ _).1 hj
  rw [ins.node_core hq, Node.children_map] at hPart
  obtain ⟨c, hc, hCore⟩ := List.mem_map.1 hPart
  have hParent := (B.parent_eq_some_iff c q).2 hc
  -- the part `c` of the copy has the same core as `p`, so both stand around one copy
  obtain ⟨k, hk, hSame, hIn⟩ := ins.exists_copy_within p
  obtain ⟨k', hk', hSame', hIn'⟩ := ins.exists_copy_within c
  obtain rfl := ins.copy_unique hk hk' (hSame.trans (hCore.symm.trans hSame'.symm))
  rcases isWithin_total hIn hIn' with hUp | hDown
  · rcases isWithin_iff.1 hUp with rfl | ⟨m, hm, -⟩
    · simp [h] at hParent
    · simp [h] at hm
  · rcases isWithin_iff.1 hDown with rfl | ⟨m, hm, hWithin⟩
    · simp [h] at hParent
    · obtain rfl : q = m := Option.some.inj (hParent.symm.trans hm)
      exact Nat.lt_irrefl _ (Nat.lt_of_lt_of_le (depth_lt_of_parent hj)
        (depth_le_of_isWithin (isWithin_core hWithin)))

/-- **A copy lies within the same nodes.** -/
theorem isWithin_iff_core (hp : ins.inserted p = false) :
    B.isWithin p q = A.isWithin (ins.core p) (ins.core q) := by
  rw [Bool.eq_iff_iff]
  refine ⟨isWithin_core, ?_⟩
  -- on the way up from the copy its core stays the same until the copy of the parent comes
  suffices hAll : ∀ p, (ins.inserted p = false ∨ ins.core p ≠ ins.core q) →
      A.isWithin (ins.core p) (ins.core q) = true → B.isWithin p q = true from hAll p (.inl hp)
  intro p hStart hWithin
  induction p using induction_parent with
  | step p ih =>
      by_cases hSame : ins.core p = ins.core q
      · have hp := hStart.resolve_right (not_not_intro hSame)
        obtain ⟨k, hk, hCore, hIn⟩ := ins.exists_copy_within q
        rwa [ins.copy_unique hp hk (hSame.trans hCore.symm)]
      · obtain ⟨j, hj, hAbove⟩ := (isWithin_iff.1 hWithin).resolve_left hSame
        cases hParent : B.parent p with
        | none => simp [parent_core_eq_none hParent] at hj
        | some m =>
            refine isWithin_of_parent hParent ?_
            cases hm : ins.inserted m with
            | true =>
                have hCore := core_of_inserted hm hParent
                exact ih m hParent (.inr (hCore ▸ hSame)) (hCore ▸ hWithin)
            | false =>
                obtain rfl : ins.core m = j :=
                  Option.some.inj ((parent_core hm hParent).symm.trans hj)
                exact ih m hParent (.inl hm) hAbove

/-- What is found among the ancestors of a node is found among those of its core, if nothing is found at
inserted parentheses. -/
theorem findSome?_ancestors {γ δ : Type} {f : B.Id → Option γ} {g : A.Id → Option δ} {h : γ → δ}
    (hCopy : ∀ a, ins.inserted a = false → g (ins.core a) = (f a).map h)
    (hInserted : ∀ a, ins.inserted a = true → f a = none) (p : B.Id) :
    (A.ancestors (ins.core p)).findSome? g = ((B.ancestors p).findSome? f).map h := by
  induction p using induction_parent with
  | step p ih =>
      cases hParent : B.parent p with
      | none =>
          rw [ancestors_of_parent_none hParent, ancestors_of_parent_none (parent_core_eq_none hParent)]
          rfl
      | some q =>
          rw [ancestors_of_parent hParent, List.findSome?_cons]
          cases hq : ins.inserted q with
          | true => rw [hInserted q hq, core_of_inserted hq hParent, ih q hParent]
          | false =>
              rw [ancestors_of_parent (parent_core hq hParent), List.findSome?_cons, hCopy q hq]
              cases f q with
              | none => exact ih q hParent
              | some found => rfl

/-! ## Branches -/

theorem condition_core (hp : ins.inserted p = false) :
    A.condition? (ins.core p) = (B.condition? p).map ins.core := by
  unfold condition?
  rw [ins.node_core hp]
  cases B.node p with
  | binary op left right => cases op <;> simp
  | ifStatement condition thenBranch elseBranch => cases elseBranch <;> rfl
  | localDeclaration name type init => cases init <;> rfl
  | returnStatement value => cases value <;> rfl
  | _ => simp

theorem branch_core (hp : ins.inserted p = false) (branch : Branch) :
    A.branch? (ins.core p) branch = (B.branch? p branch).map ins.core := by
  unfold branch?
  rw [ins.node_core hp]
  cases B.node p with
  | binary op left right => cases op <;> cases branch <;> simp
  | ifStatement condition thenBranch elseBranch => cases elseBranch <;> cases branch <;> rfl
  | localDeclaration name type init => cases init <;> cases branch <;> rfl
  | returnStatement value => cases value <;> cases branch <;> rfl
  | _ => cases branch <;> simp

/-- A copy lies in the same branches. -/
theorem isUnder_core {construct : B.Id} (hp : ins.inserted p = false)
    (hConstruct : ins.inserted construct = false) (branch : Branch) :
    A.isUnder (ins.core p) (ins.core construct) branch = B.isUnder p construct branch := by
  unfold isUnder
  rw [branch_core hConstruct]
  cases B.branch? construct branch with
  | none => rfl
  | some part => exact (isWithin_iff_core hp).symm

end Insertion

end StateGuard.Arena
