import StateGuard.Proofs.Syntax.Order
import StateGuard.Proofs.Syntax.Sorts
import StateGuard.Semantics.Binder

/-!
# Lexical scoping

The rule that says which declaration a name stands for, and the same as a list: `before i` has the
declarations that have happened when node `i` is reached and whose scopes are still open, the outer
scopes first, and a name stands for the last one in it with that name.  Parameters and members of the
unit are declared when their scope is entered; a local declaration is declared when it is over, after
its whole initialiser, and so is an out variable.  Fields are both, so they can occur twice.

## Main results

* `mem_before_entered_iff`, `mem_before_reached_iff`: which declarations are in the list.
* `pairwise_before`: the list goes from the outer scopes to the inner ones and follows the order of
  declaration in each.
* `meaning_eq_some_iff`, `meaning_eq_none_iff`: the last declaration in the list is the chosen one.
-/

namespace StateGuard

namespace Node

variable {ι : Type}

/-- The name that a node declares. -/
def declaredName? : Node ι → Option String
  | .method name .. => some name
  | .parameter name _ => some name
  | .localDeclaration name .. => some name
  | .outVariable name _ => some name
  | _ => none

/-- The nodes whose parts are a scope of their own. -/
def opensScope : Node ι → Bool
  | .method .. => true
  | .block .. => true
  | .lambda .. => true
  | _ => false

/-- The nodes that declare a name when they are over. -/
def isLocal : Node ι → Bool
  | .localDeclaration .. => true
  | .outVariable .. => true
  | _ => false

/-- The parts that are declared when a node is entered. -/
def entered : Node ι → List ι
  | .compilationUnit members => members
  | node => node.params

end Node

namespace Arena

variable (arena : Arena)

/-! ## The rule -/

/-- The node whose scope a declaration belongs to: the nearest method, lambda or block around it, or
else the unit. -/
def owner (d : arena.Id) : arena.Id :=
  ((arena.ancestors d).find? fun a => (arena.node a).opensScope).getD arena.root

variable {arena}

/-- A declaration that holds in all of its scope: a parameter or a member of the unit. -/
def IsEntered (d : arena.Id) : Prop :=
  (arena.node d).kind = .parameter ∨ arena.parent d = some arena.root

/-- A declaration that has happened where it stands: a local declaration or an out variable that is
over when a node is reached. -/
def IsReached (d i : arena.Id) : Prop := (arena.node d).isLocal = true ∧ IsOver d i

/-- A declaration of a name that a node can refer to. -/
structure Qualifies (name : String) (d i : arena.Id) : Prop where
  name_eq : (arena.node d).declaredName? = some name
  owner_mem : arena.owner d = arena.root ∨ arena.owner d ∈ arena.ancestors i
  effect : IsEntered d ∨ IsReached d i

/-- One node ends before another: it is over when the other begins, or lies within it. -/
def EndsBefore (e d : arena.Id) : Prop := IsOver e d ∨ (e ≠ d ∧ arena.isWithin e d = true)

/-- As seen from a node, the last time `d` is declared comes after the last time `e` is: what is
reached comes after what is only entered, and each follows the source. -/
def IsLater (i d e : arena.Id) : Prop :=
  (IsReached d i ∧ (IsReached e i → EndsBefore e d)) ∨
    (¬ IsReached d i ∧ ¬ IsReached e i ∧ Precedes e d)

/-- The declaration of a name that a node refers to: that of the innermost scope, and in that scope
the latest. -/
structure IsChosen (name : String) (d i : arena.Id) : Prop where
  qualifies : Qualifies name d i
  best : ∀ e, Qualifies name e i → e = d ∨
    (arena.owner e ≠ arena.owner d ∧ arena.isWithin (arena.owner d) (arena.owner e) = true) ∨
    (arena.owner e = arena.owner d ∧ IsLater i d e)

/-! ## The rule as a list -/

/-- A declaration, and whether it happens because its node is over. -/
structure Event (arena : Arena) where
  reached : Bool
  node : arena.Id

variable (arena)

/-- The local declarations and out variables below a node that are left in the scope around it. -/
def exposed (c : arena.Id) : List arena.Id :=
  if (arena.node c).opensScope then []
  else (arena.node c).children.attach.flatMap (fun e => exposed e.1) ++
    if (arena.node c).isLocal then [c] else []
termination_by arena.height c
decreasing_by exact height_lt_of_mem_children e.2

variable {arena}

/-- The parameters or members of a node as events. -/
def enteredEvents (p : arena.Id) : List (Event arena) := (arena.node p).entered.map (⟨false, ·⟩)

/-- The declarations that nodes leave in the scope around them, as events. -/
def reachedEvents (nodes : List arena.Id) : List (Event arena) :=
  (nodes.flatMap arena.exposed).map (⟨true, ·⟩)

/-- The declarations that have happened when a node is reached, in open scopes. -/
def before (i : arena.Id) : List (Event arena) :=
  match _h : arena.parent i with
  | none => []
  | some p =>
    before p ++ enteredEvents p ++ reachedEvents ((arena.node p).children.takeWhile (· ≠ i))
termination_by arena.depth i
decreasing_by exact depth_lt_of_parent _h

/-- The symbol that a name has after some declarations: that of the last one with the name. -/
def meaning (events : List (Event arena)) (name : String) : Option String :=
  (events.reverse.find? fun e => (arena.node e.node).declaredName? = some name).map fun e =>
    Binder.symbolOf name e.node

/-! ## Owners -/

section Owner

variable {c d i p : arena.Id}

theorem owner_of_parent (hParent : arena.parent c = some p) :
    arena.owner c = if (arena.node p).opensScope then p else arena.owner p := by
  unfold owner
  rw [ancestors_of_parent hParent, List.find?_cons]
  cases (arena.node p).opensScope <;> simp

theorem owner_root : arena.owner arena.root = arena.root := by
  rw [owner, ancestors_of_parent_none arena.parent_root]
  rfl

theorem IsProgram.not_opensScope_root (h : arena.IsProgram) :
    (arena.node arena.root).opensScope = false := by
  have hKind := h.root_kind
  cases hNode : arena.node arena.root <;> simp_all [Node.kind, Node.opensScope]

theorem IsProgram.owner_mem_ancestors (h : arena.IsProgram) (hd : d ≠ arena.root) :
    arena.owner d ∈ arena.ancestors d := by
  unfold owner
  cases hFind : (arena.ancestors d).find? fun a => (arena.node a).opensScope with
  | none => exact h.root_mem_ancestors hd
  | some a => exact List.mem_of_find?_eq_some hFind

theorem owner_cases (d : arena.Id) :
    (arena.node (arena.owner d)).opensScope = true ∨ arena.owner d = arena.root := by
  unfold owner
  cases hFind : (arena.ancestors d).find? fun a => (arena.node a).opensScope with
  | none => exact .inr rfl
  | some a => exact .inl (by simpa using List.find?_some hFind)

/-- The owner of a node is the nearest scope around it. -/
theorem IsProgram.owner_isWithin (h : arena.IsProgram) {a : arena.Id}
    (ha : a ∈ arena.ancestors d)
    (hScope : (arena.node a).opensScope = true ∨ a = arena.root) :
    arena.isWithin (arena.owner d) a = true := by
  rcases hScope with hOpens | rfl
  · induction d using induction_parent with
    | step d ih =>
        cases hParent : arena.parent d with
        | none => simp [ancestors_of_parent_none hParent] at ha
        | some p =>
            rw [ancestors_of_parent hParent, List.mem_cons] at ha
            rw [owner_of_parent hParent]
            split
            · rcases ha with rfl | ha
              · exact isWithin_self a
              · exact (mem_ancestors_iff.1 ha).2
            · next hClosed =>
                rcases ha with rfl | ha
                · exact absurd hOpens hClosed
                · exact ih p hParent ha
  · exact h.connected _

/-- The owner of a node below another one is below that one too, unless they share their owner. -/
theorem owner_eq_or_isWithin (hWithin : arena.isWithin d c = true) :
    arena.owner d = arena.owner c ∨ arena.isWithin (arena.owner d) c = true := by
  induction d using induction_parent with
  | step d ih =>
      rcases isWithin_iff.1 hWithin with rfl | ⟨p, hParent, hAbove⟩
      · exact .inl rfl
      · rw [owner_of_parent hParent]
        by_cases hOpens : (arena.node p).opensScope = true
        · rw [if_pos hOpens]
          exact .inr hAbove
        · rw [if_neg hOpens]
          exact ih p hParent hAbove

/-- A declaration below a node that belongs to a scope around the node belongs to the scope that the
node is in. -/
theorem owner_eq_of_mem_ancestors (hWithin : arena.isWithin d c = true)
    (hOwner : arena.owner d ∈ arena.ancestors c) : arena.owner d = arena.owner c := by
  rcases owner_eq_or_isWithin hWithin with hEq | hBelow
  · exact hEq
  · obtain ⟨hNe, hAbove⟩ := mem_ancestors_iff.1 hOwner
    exact absurd (isWithin_antisymm hAbove hBelow) hNe

end Owner

/-! ## Which declarations are in the list -/

section Membership

variable {c d i p : arena.Id}

theorem exposed_eq (c : arena.Id) : arena.exposed c =
    if (arena.node c).opensScope then []
    else (arena.node c).children.flatMap arena.exposed ++
      if (arena.node c).isLocal then [c] else [] := by
  rw [exposed, List.flatMap_def, List.flatMap_def]
  simp

theorem not_opensScope_of_isLocal {ι : Type} {node : Node ι} (h : node.isLocal = true) :
    node.opensScope = false := by
  cases node <;> simp_all [Node.isLocal, Node.opensScope]

theorem IsProgram.mem_exposed_iff (h : arena.IsProgram) : d ∈ arena.exposed c ↔
    (arena.node d).isLocal = true ∧ arena.isWithin d c = true ∧ arena.owner d = arena.owner c := by
  induction c using induction_parts with
  | step c ih =>
      have hOwner : ∀ e ∈ (arena.node c).children,
          arena.owner e = if (arena.node c).opensScope then c else arena.owner c :=
        fun e he => owner_of_parent ((arena.parent_eq_some_iff e c).2 he)
      rw [exposed_eq]
      by_cases hOpens : (arena.node c).opensScope = true
      · -- what is below a node with a scope of its own belongs to that scope or a deeper one
        rw [if_pos hOpens]
        simp only [List.not_mem_nil, false_iff]
        rintro ⟨hLocal, hWithin, hEq⟩
        have hBelow : arena.isWithin (arena.owner d) c = true := by
          rcases isWithin_iff_part.1 hWithin with rfl | ⟨e, he, hde⟩
          · simp [not_opensScope_of_isLocal hLocal] at hOpens
          · rcases owner_eq_or_isWithin hde with hSame | hDeeper
            · rw [hSame, hOwner e he, if_pos hOpens]
              exact isWithin_self c
            · exact isWithin_of_part hDeeper he
        have hRoot : c ≠ arena.root := by
          rintro rfl
          simp [h.not_opensScope_root] at hOpens
        obtain ⟨hNe, hAbove⟩ := mem_ancestors_iff.1 (h.owner_mem_ancestors hRoot)
        exact hNe (isWithin_antisymm hAbove (hEq ▸ hBelow))
      · rw [if_neg hOpens, List.mem_append, List.mem_flatMap]
        constructor
        · rintro (⟨e, he, hMem⟩ | hMem)
          · obtain ⟨hLocal, hWithin, hEq⟩ := (ih e he).1 hMem
            rw [hOwner e he, if_neg hOpens] at hEq
            exact ⟨hLocal, isWithin_of_part hWithin he, hEq⟩
          · split at hMem
            · next hLocal =>
                obtain rfl := List.mem_singleton.1 hMem
                exact ⟨hLocal, isWithin_self d, rfl⟩
            · simp at hMem
        · rintro ⟨hLocal, hWithin, hEq⟩
          rcases isWithin_iff_part.1 hWithin with rfl | ⟨e, he, hde⟩
          · exact .inr (by simp [hLocal])
          · refine .inl ⟨e, he, (ih e he).2 ⟨hLocal, hde, ?_⟩⟩
            rw [hEq, hOwner e he, if_neg hOpens]

theorem before_of_parent (hParent : arena.parent i = some p) : before i =
    before p ++ enteredEvents p ++ reachedEvents ((arena.node p).children.takeWhile (· ≠ i)) := by
  rw [before]
  split
  · next hNone => simp [hNone] at hParent
  · next q hSome =>
      obtain rfl : q = p := Option.some.inj (hSome.symm.trans hParent)
      rfl

theorem before_of_parent_none (hParent : arena.parent i = none) : before i = [] := by
  rw [before]
  split
  · rfl
  · next hSome => simp [hParent] at hSome

theorem mem_reachedEvents_iff {nodes : List arena.Id} {event : Event arena} :
    event ∈ reachedEvents nodes ↔
      event.reached = true ∧ ∃ c ∈ nodes, event.node ∈ arena.exposed c := by
  obtain ⟨reached, d⟩ := event
  simp only [reachedEvents, List.mem_map, List.mem_flatMap, Event.mk.injEq]
  constructor
  · rintro ⟨d', ⟨c, hc, hMem⟩, rfl, rfl⟩
    exact ⟨rfl, c, hc, hMem⟩
  · rintro ⟨rfl, c, hc, hMem⟩
    exact ⟨d, ⟨c, hc, hMem⟩, rfl, rfl⟩

theorem mem_enteredEvents_iff {event : Event arena} :
    event ∈ enteredEvents p ↔ event.reached = false ∧ event.node ∈ (arena.node p).entered := by
  obtain ⟨reached, d⟩ := event
  simp only [enteredEvents, List.mem_map, Event.mk.injEq]
  constructor
  · rintro ⟨d', hMem, rfl, rfl⟩
    exact ⟨rfl, hMem⟩
  · rintro ⟨rfl, hMem⟩
    exact ⟨d, hMem, rfl, rfl⟩

theorem mem_earlier_iff {e : arena.Id} (hParent : arena.parent i = some p) :
    e ∈ (arena.node p).children.takeWhile (· ≠ i) ↔ [e, i].Sublist (arena.node p).children :=
  mem_takeWhile_ne_iff (arena.children_nodup p) ((arena.parent_eq_some_iff i p).1 hParent)

/-- **The local declarations in the list** are those to the left whose scope is open. -/
theorem IsProgram.mem_before_reached_iff (h : arena.IsProgram) : ⟨true, d⟩ ∈ before i ↔
    (arena.node d).isLocal = true ∧ arena.owner d ∈ arena.ancestors i ∧ LeftOf d i := by
  induction i using induction_parent with
  | step i ih =>
      cases hParent : arena.parent i with
      | none =>
          rw [before_of_parent_none hParent, ancestors_of_parent_none hParent]
          simp
      | some p =>
          rw [before_of_parent hParent, List.mem_append, List.mem_append, ih p hParent,
            mem_enteredEvents_iff, mem_reachedEvents_iff, ancestors_of_parent hParent,
            leftOf_iff_of_parent hParent, List.mem_cons]
          simp only [Bool.true_eq_false, false_and, or_false, true_and, h.mem_exposed_iff,
            mem_earlier_iff hParent]
          constructor
          · rintro (⟨hLocal, hOwner, hLeft⟩ | ⟨c, hPair, hLocal, hWithin, hEq⟩)
            · exact ⟨hLocal, .inr hOwner, .inl hLeft⟩
            · refine ⟨hLocal, ?_, .inr ⟨c, hPair, hWithin⟩⟩
              have hc := (arena.parent_eq_some_iff c p).2 (mem_of_pair_sublist hPair).1
              have hRoot : c ≠ arena.root := by
                rintro rfl
                simp [arena.parent_root] at hc
              have := h.owner_mem_ancestors hRoot
              rwa [ancestors_of_parent hc, List.mem_cons, ← hEq] at this
          · rintro ⟨hLocal, hOwner, hLeft | ⟨c, hPair, hWithin⟩⟩
            · refine .inl ⟨hLocal, hOwner.resolve_left ?_, hLeft⟩
              -- what is to the left of a node belongs to no scope of that node
              intro hEq
              have hRoot : d ≠ arena.root := by
                rintro rfl
                have := hLeft.not_isWithin'
                simp [h.connected] at this
              have := (mem_ancestors_iff.1 (h.owner_mem_ancestors hRoot)).2
              simp [hEq, hLeft.not_isWithin] at this
            · refine .inr ⟨c, hPair, hLocal, hWithin, owner_eq_of_mem_ancestors hWithin ?_⟩
              have hEarlier := (arena.parent_eq_some_iff c p).2 (mem_of_pair_sublist hPair).1
              rw [ancestors_of_parent hEarlier]
              exact List.mem_cons.2 hOwner

theorem mem_entered_of_mem_params {ι : Type} {node : Node ι} {c : ι} (h : c ∈ node.params) :
    c ∈ node.entered ∧ node.opensScope = true := by
  cases node <;> simp_all [Node.params, Node.entered, Node.opensScope]

/-- What is entered with a node is what belongs to it and holds in all of its scope. -/
theorem IsProgram.mem_entered_iff (h : arena.IsProgram) :
    d ∈ (arena.node p).entered ↔ IsEntered d ∧ arena.owner d = p := by
  have hRootOwner : arena.parent d = some arena.root → arena.owner d = arena.root := by
    intro hParent
    rw [owner_of_parent hParent, h.not_opensScope_root, owner_root]
    rfl
  constructor
  · intro hMem
    by_cases hUnit : (arena.node p).kind = .compilationUnit
    · have hParent : arena.parent d = some p := by
        rw [arena.parent_eq_some_iff]
        cases hNode : arena.node p <;> simp_all [Node.kind, Node.entered, Node.children]
      obtain rfl := h.eq_root hUnit
      exact ⟨.inr hParent, hRootOwner hParent⟩
    · have hParam : d ∈ (arena.node p).params := by
        cases hNode : arena.node p <;> simp_all [Node.kind, Node.entered]
      have hParent : arena.parent d = some p :=
        (arena.parent_eq_some_iff d p).2 (Node.mem_children_of_mem_params hParam)
      refine ⟨.inl ((h.sorted p).kind_of_mem_params hParam), ?_⟩
      rw [owner_of_parent hParent, if_pos (mem_entered_of_mem_params hParam).2]
  · rintro ⟨hKind | hParent, rfl⟩
    · obtain ⟨q, hParent, hParam⟩ := h.mem_params_of_parameter hKind
      obtain ⟨hEntered, hOpens⟩ := mem_entered_of_mem_params hParam
      rwa [owner_of_parent hParent, if_pos hOpens]
    · rw [hRootOwner hParent]
      have hKind := h.root_kind
      have hMem := (arena.parent_eq_some_iff d arena.root).1 hParent
      cases hNode : arena.node arena.root <;> simp_all [Node.kind, Node.entered, Node.children]

/-- **The other declarations in the list** are the parameters and members whose scope is open. -/
theorem IsProgram.mem_before_entered_iff (h : arena.IsProgram) : ⟨false, d⟩ ∈ before i ↔
    IsEntered d ∧ arena.owner d ∈ arena.ancestors i := by
  induction i using induction_parent with
  | step i ih =>
      cases hParent : arena.parent i with
      | none =>
          rw [before_of_parent_none hParent, ancestors_of_parent_none hParent]
          simp
      | some p =>
          rw [before_of_parent hParent, List.mem_append, List.mem_append, ih p hParent,
            mem_enteredEvents_iff, mem_reachedEvents_iff, ancestors_of_parent hParent,
            List.mem_cons]
          simp only [Bool.false_eq_true, false_and, or_false, true_and, h.mem_entered_iff]
          rw [← and_or_left, or_comm]

end Membership

/-! ## The order of the list -/

/-- One event stands before another: it belongs to an outer scope, or happens earlier in the same. -/
def Event.Before (a b : Event arena) : Prop :=
  (arena.owner a.node ≠ arena.owner b.node ∧
    arena.isWithin (arena.owner b.node) (arena.owner a.node) = true) ∨
  (arena.owner a.node = arena.owner b.node ∧
    ((a.reached = false ∧ b.reached = true) ∨
      (a.reached = false ∧ b.reached = false ∧ Precedes a.node b.node) ∨
      (a.reached = true ∧ b.reached = true ∧ EndsBefore a.node b.node)))

section Ordering

variable (h : arena.IsProgram) {c d i p : arena.Id}
include h

theorem IsProgram.endsBefore_of_leftOf (hLeft : LeftOf d i) : EndsBefore d i :=
  .inl ((isOver_iff (h.connected d) (h.connected i)).2 hLeft)

theorem IsProgram.pairwise_exposed (c : arena.Id) : (arena.exposed c).Pairwise EndsBefore := by
  induction c using induction_parts with
  | step c ih =>
      rw [exposed_eq]
      split
      · exact .nil
      · rw [List.pairwise_append]
        refine ⟨?_, ?_, ?_⟩
        · rw [List.pairwise_flatMap]
          refine ⟨ih, List.pairwise_iff_forall_sublist.2 ?_⟩
          intro a b hPair x hx y hy
          exact h.endsBefore_of_leftOf ⟨c, a, b, hPair, (h.mem_exposed_iff.1 hx).2.1,
            (h.mem_exposed_iff.1 hy).2.1⟩
        · split <;> simp
        · intro x hx y hy
          obtain ⟨e, he, hxe⟩ := List.mem_flatMap.1 hx
          have hWithin := (h.mem_exposed_iff.1 hxe).2.1
          split at hy
          · obtain rfl := List.mem_singleton.1 hy
            refine .inr ⟨?_, isWithin_of_part hWithin he⟩
            rintro rfl
            exact Nat.lt_irrefl _ (depth_lt_of_isWithin_part he hWithin)
          · simp at hy

theorem IsProgram.pairwise_reachedEvents {nodes : List arena.Id}
    (hNodes : nodes.Sublist (arena.node p).children) :
    (reachedEvents nodes).Pairwise Event.Before := by
  rw [reachedEvents, List.pairwise_map, List.pairwise_flatMap]
  constructor
  · intro c hc
    refine (h.pairwise_exposed c).imp_of_mem ?_
    intro x y hx hy hEnds
    have hOwner := (h.mem_exposed_iff.1 hx).2.2.trans (h.mem_exposed_iff.1 hy).2.2.symm
    exact .inr ⟨hOwner, .inr (.inr ⟨rfl, rfl, hEnds⟩)⟩
  · refine List.pairwise_iff_forall_sublist.2 ?_
    intro a b hPair x hx y hy
    have hPair' := hPair.trans hNodes
    obtain ⟨ha, hb⟩ := mem_of_pair_sublist hPair'
    have hOwner : arena.owner a = arena.owner b := by
      rw [owner_of_parent ((arena.parent_eq_some_iff a p).2 ha),
        owner_of_parent ((arena.parent_eq_some_iff b p).2 hb)]
    obtain ⟨-, hxa, hx⟩ := h.mem_exposed_iff.1 hx
    obtain ⟨-, hyb, hy⟩ := h.mem_exposed_iff.1 hy
    exact .inr ⟨hx.trans (hOwner.trans hy.symm), .inr (.inr ⟨rfl, rfl,
      h.endsBefore_of_leftOf ⟨p, a, b, hPair', hxa, hyb⟩⟩)⟩

omit h in
theorem entered_sublist_children {ι : Type} (node : Node ι) :
    node.entered.Sublist node.children := by
  cases node <;> simp [Node.entered, Node.params, Node.children]

theorem IsProgram.pairwise_enteredEvents (p : arena.Id) :
    (enteredEvents p).Pairwise Event.Before := by
  rw [enteredEvents, List.pairwise_map]
  refine List.pairwise_iff_forall_sublist.2 ?_
  intro a b hPair
  have hPair' := hPair.trans (entered_sublist_children (arena.node p))
  obtain ⟨ha, hb⟩ := mem_of_pair_sublist hPair
  have hOwner := (h.mem_entered_iff.1 ha).2.trans (h.mem_entered_iff.1 hb).2.symm
  refine .inr ⟨hOwner, .inr (.inl ⟨rfl, rfl, ?_⟩)⟩
  exact pair_sublist_subtree_iff.2 ⟨h.connected a, h.connected b,
    .inr ⟨p, a, b, hPair', isWithin_self a, isWithin_self b⟩⟩

theorem IsProgram.owner_mem_of_mem_before {event : Event arena} (hMem : event ∈ before i) :
    arena.owner event.node ∈ arena.ancestors i := by
  obtain ⟨reached, d⟩ := event
  cases reached with
  | false => exact (h.mem_before_entered_iff.1 hMem).2
  | true => exact (h.mem_before_reached_iff.1 hMem).2.1

/-- What has happened when a node is reached belongs to scopes outside that node. -/
theorem IsProgram.before_of_owner {a b : Event arena} (ha : a ∈ before p)
    (hOwner : arena.owner b.node = p) : a.Before b := by
  obtain ⟨hNe, hAbove⟩ := mem_ancestors_iff.1 (h.owner_mem_of_mem_before ha)
  rw [Event.Before, hOwner]
  exact .inl ⟨hNe.symm, hAbove⟩

/-- What a part of a node leaves in its scope comes after all that has happened before the node. -/
theorem IsProgram.before_exposed {a : Event arena} (ha : a ∈ before p)
    (hc : c ∈ (arena.node p).children) (hd : d ∈ arena.exposed c) : a.Before ⟨true, d⟩ := by
  obtain ⟨-, hWithin, hOwner⟩ := h.mem_exposed_iff.1 hd
  rw [owner_of_parent ((arena.parent_eq_some_iff c p).2 hc)] at hOwner
  split at hOwner
  · exact h.before_of_owner ha hOwner
  have hBelow : arena.isWithin (arena.owner d) (arena.owner a.node) = true :=
    hOwner ▸ h.owner_isWithin (h.owner_mem_of_mem_before ha) (owner_cases a.node)
  by_cases hEq : arena.owner a.node = arena.owner d
  · refine .inr ⟨hEq, ?_⟩
    obtain ⟨reached, e⟩ := a
    cases reached with
    | false => exact .inl ⟨rfl, rfl⟩
    | true =>
        obtain ⟨-, -, hLeft⟩ := h.mem_before_reached_iff.1 ha
        exact .inr (.inr ⟨rfl, rfl, h.endsBefore_of_leftOf
          (hLeft.mono (isWithin_self e) (isWithin_of_part hWithin hc))⟩)
  · exact .inl ⟨hEq, hBelow⟩

/-- What a part of a node leaves in its scope comes after what is entered with the node. -/
theorem IsProgram.entered_before_exposed {a : Event arena} (ha : a ∈ enteredEvents p)
    (hc : c ∈ (arena.node p).children) (hd : d ∈ arena.exposed c) : a.Before ⟨true, d⟩ := by
  obtain ⟨hFalse, hEntered⟩ := mem_enteredEvents_iff.1 ha
  obtain ⟨-, -, hOwner⟩ := h.mem_exposed_iff.1 hd
  obtain ⟨-, hOwner'⟩ := h.mem_entered_iff.1 hEntered
  rw [owner_of_parent ((arena.parent_eq_some_iff c p).2 hc)] at hOwner
  refine .inr ⟨?_, .inl ⟨hFalse, rfl⟩⟩
  rw [hOwner, hOwner']
  rcases owner_cases a.node with hOpens | hRoot
  · rw [hOwner'] at hOpens
    rw [if_pos hOpens]
  · rw [hOwner'] at hRoot
    rw [hRoot, h.not_opensScope_root, owner_root]
    rfl

/-- **The list goes from the outer scopes to the inner ones** and follows the order of declaration in
each. -/
theorem IsProgram.pairwise_before (i : arena.Id) : (before i).Pairwise Event.Before := by
  induction i using induction_parent with
  | step i ih =>
      cases hParent : arena.parent i with
      | none =>
          rw [before_of_parent_none hParent]
          exact .nil
      | some p =>
          have hReached : ∀ b ∈ reachedEvents ((arena.node p).children.takeWhile (· ≠ i)),
              ∃ c ∈ (arena.node p).children, ∃ d ∈ arena.exposed c, b = ⟨true, d⟩ := by
            rintro ⟨reached, d⟩ hb
            obtain ⟨rfl, c, hc, hMem⟩ := mem_reachedEvents_iff.1 hb
            exact ⟨c, (mem_of_pair_sublist ((mem_earlier_iff hParent).1 hc)).1, d, hMem, rfl⟩
          rw [before_of_parent hParent, List.append_assoc, List.pairwise_append,
            List.pairwise_append]
          refine ⟨ih p hParent, ⟨h.pairwise_enteredEvents p,
            h.pairwise_reachedEvents (List.takeWhile_sublist _), ?_⟩, ?_⟩
          · intro a ha b hb
            obtain ⟨c, hc, d, hd, rfl⟩ := hReached b hb
            exact h.entered_before_exposed ha hc hd
          · intro a ha b hb
            rcases List.mem_append.1 hb with hb | hb
            · exact h.before_of_owner ha (h.mem_entered_iff.1 (mem_enteredEvents_iff.1 hb).2).2
            · obtain ⟨c, hc, d, hd, rfl⟩ := hReached b hb
              exact h.before_exposed ha hc hd

end Ordering

/-! ## The last declaration is the chosen one -/

/-- In an ordered list, the last element with a property comes after all others with it. -/
theorem before_of_find?_reverse {α : Type} {R : α → α → Prop} {l : List α} (hl : l.Pairwise R)
    {test : α → Bool} {a : α} (hFind : l.reverse.find? test = some a) {b : α} (hb : b ∈ l)
    (hTest : test b = true) : b = a ∨ R b a := by
  obtain ⟨-, after, first, hSplit, hNone⟩ := List.find?_eq_some_iff_append.1 hFind
  have hl' : l = first.reverse ++ a :: after.reverse := by
    rw [← List.reverse_reverse l, hSplit]
    simp
  rw [hl', List.mem_append, List.mem_cons] at hb
  rw [hl', List.pairwise_append] at hl
  rcases hb with hb | rfl | hb
  · exact .inr (hl.2.2 b hb a List.mem_cons_self)
  · exact .inl rfl
  · have := hNone b (List.mem_reverse.1 hb)
    simp [hTest] at this

theorem EndsBefore.asymm {d e : arena.Id} (h : EndsBefore e d) : ¬ EndsBefore d e := by
  rintro (hOver | ⟨hNe, hWithin⟩)
  · rcases h with hOver' | ⟨-, hWithin'⟩
    · exact hOver.1.asymm hOver'.1
    · simp [hOver.2] at hWithin'
  · rcases h with hOver' | ⟨-, hWithin'⟩
    · simp [hOver'.2] at hWithin
    · exact hNe (isWithin_antisymm hWithin hWithin')

theorem IsLater.asymm {i d e : arena.Id} (h : IsLater i d e) : ¬ IsLater i e d := by
  rintro (⟨hReached, hEnds⟩ | ⟨hNot, hNot', hPrecedes⟩)
  · rcases h with ⟨hReached', hEnds'⟩ | ⟨-, hNot, -⟩
    · exact (hEnds hReached').asymm (hEnds' hReached)
    · exact hNot hReached
  · rcases h with ⟨hReached, -⟩ | ⟨-, -, hPrecedes'⟩
    · exact hNot' hReached
    · exact hPrecedes.asymm hPrecedes'

/-- At most one declaration is chosen. -/
theorem IsChosen.unique {d e i : arena.Id} {name : String} (hd : IsChosen name d i)
    (he : IsChosen name e i) : d = e := by
  rcases hd.best e he.qualifies with rfl | ⟨hNe, hWithin⟩ | ⟨hEq, hLater⟩
  · rfl
  · rcases he.best d hd.qualifies with rfl | ⟨-, hWithin'⟩ | ⟨hEq, -⟩
    · rfl
    · exact absurd (isWithin_antisymm hWithin' hWithin) hNe
    · exact absurd hEq.symm hNe
  · rcases he.best d hd.qualifies with rfl | ⟨hNe, -⟩ | ⟨-, hLater'⟩
    · rfl
    · exact absurd hEq.symm hNe
    · exact absurd hLater' hLater.asymm

section Choice

variable (h : arena.IsProgram) {d e i : arena.Id} {name : String}
include h

/-- A declaration that qualifies has an event in the list, and it is there as reached if it is. -/
theorem IsProgram.exists_event_of_qualifies (hi : i ≠ arena.root) (hd : Qualifies name d i) :
    ∃ event ∈ before i, event.node = d ∧ (event.reached = true ↔ IsReached d i) := by
  have hOwner : arena.owner d ∈ arena.ancestors i := by
    rcases hd.owner_mem with hRoot | hOwner
    · exact hRoot ▸ h.root_mem_ancestors hi
    · exact hOwner
  by_cases hReached : IsReached d i
  · have hLeft := (isOver_iff (h.connected d) (h.connected i)).1 hReached.2
    exact ⟨⟨true, d⟩, h.mem_before_reached_iff.2 ⟨hReached.1, hOwner, hLeft⟩, rfl, by simpa⟩
  · have hEntered := hd.effect.resolve_right hReached
    exact ⟨⟨false, d⟩, h.mem_before_entered_iff.2 ⟨hEntered, hOwner⟩, rfl, by simpa⟩

/-- An event in the list is a declaration that qualifies, and is reached as it says. -/
theorem IsProgram.qualifies_of_mem_before {event : Event arena} (hMem : event ∈ before i)
    (hName : (arena.node event.node).declaredName? = some name) :
    Qualifies name event.node i ∧ (event.reached = true → IsReached event.node i) := by
  have hOwner := h.owner_mem_of_mem_before hMem
  obtain ⟨reached, d⟩ := event
  cases reached with
  | false =>
      exact ⟨⟨hName, .inr hOwner, .inl (h.mem_before_entered_iff.1 hMem).1⟩, by simp⟩
  | true =>
      obtain ⟨hLocal, -, hLeft⟩ := h.mem_before_reached_iff.1 hMem
      have hReached : IsReached d i :=
        ⟨hLocal, (isOver_iff (h.connected d) (h.connected i)).2 hLeft⟩
      exact ⟨⟨hName, .inr hOwner, .inr hReached⟩, fun _ => hReached⟩

/-- **The last event with a name is the declaration that the rule chooses.** -/
theorem IsProgram.isChosen_of_find? (hi : i ≠ arena.root) {last : Event arena}
    (hFind : (before i).reverse.find?
      (fun e => (arena.node e.node).declaredName? = some name) = some last) :
    IsChosen name last.node i := by
  have hMem : last ∈ before i := List.mem_reverse.1 (List.mem_of_find?_eq_some hFind)
  have hName : (arena.node last.node).declaredName? = some name := by
    simpa using List.find?_some hFind
  obtain ⟨hQualifies, hLast⟩ := h.qualifies_of_mem_before hMem hName
  have hAll : ∀ e, Qualifies name e i → ∃ event ∈ before i, event.node = e ∧
      (event.reached = true ↔ IsReached e i) ∧ (event = last ∨ event.Before last) := by
    intro e he
    obtain ⟨event, hEvent, rfl, hReached⟩ := h.exists_event_of_qualifies hi he
    exact ⟨event, hEvent, rfl, hReached,
      before_of_find?_reverse (h.pairwise_before i) hFind hEvent (by simpa using he.name_eq)⟩
  -- the last event of a declaration that is both entered and reached is the one where it is reached
  have hUnreached : last.reached = false → ¬ IsReached last.node i := by
    intro hFalse hReached
    obtain ⟨event, -, hNode, hEvent, hEq | hBefore⟩ := hAll _ hQualifies
    · subst hEq
      simp [hEvent.2 hReached] at hFalse
    · have hTrue := hEvent.2 hReached
      simp [Event.Before, hNode, hFalse, hTrue] at hBefore
  refine ⟨hQualifies, ?_⟩
  intro e he
  obtain ⟨event, -, rfl, hReached, rfl | hOuter | ⟨hOwner, hEarlier⟩⟩ := hAll e he
  · exact .inl rfl
  · exact .inr (.inl hOuter)
  · refine .inr (.inr ⟨hOwner, ?_⟩)
    rcases hEarlier with ⟨hFalse, hTrue⟩ | ⟨hFalse, hFalse', hPrecedes⟩ | ⟨hTrue, hTrue', hEnds⟩
    · refine .inl ⟨hLast hTrue, fun hNot => ?_⟩
      simp [hReached.2 hNot] at hFalse
    · refine .inr ⟨hUnreached hFalse', fun hNot => ?_, hPrecedes⟩
      simp [hReached.2 hNot] at hFalse
    · exact .inl ⟨hLast hTrue', fun _ => hEnds⟩

/-- **A name means nothing** exactly when no declaration of it qualifies. -/
theorem IsProgram.meaning_eq_none_iff (hi : i ≠ arena.root) :
    meaning (before i) name = none ↔ ∀ d, ¬ Qualifies name d i := by
  rw [meaning, Option.map_eq_none_iff, List.find?_eq_none]
  constructor
  · intro hNone d hd
    obtain ⟨event, hMem, rfl, -⟩ := h.exists_event_of_qualifies hi hd
    exact hNone event (List.mem_reverse.2 hMem) (by simpa using hd.name_eq)
  · intro hNone event hMem hName
    exact hNone event.node
      (h.qualifies_of_mem_before (List.mem_reverse.1 hMem) (by simpa using hName)).1

/-- **A name means the declaration that the rule chooses.** -/
theorem IsProgram.meaning_eq_some_iff (hi : i ≠ arena.root) {symbol : String} :
    meaning (before i) name = some symbol ↔
      ∃ d, IsChosen name d i ∧ symbol = Binder.symbolOf name d := by
  constructor
  · intro hSome
    obtain ⟨last, hFind, rfl⟩ := Option.map_eq_some_iff.1 hSome
    exact ⟨last.node, h.isChosen_of_find? hi hFind, rfl⟩
  · rintro ⟨d, hd, rfl⟩
    cases hMeaning : meaning (before i) name with
    | none => exact absurd hd.qualifies ((h.meaning_eq_none_iff hi).1 hMeaning d)
    | some symbol =>
        obtain ⟨last, hFind, rfl⟩ := Option.map_eq_some_iff.1 hMeaning
        rw [hd.unique (h.isChosen_of_find? hi hFind)]

end Choice

end Arena

end StateGuard
