import StateGuard.Proofs.Semantics.Calls

/-!
# What a member binding reads from

The binder reads a member binding from the last type on its stack, the analysis from the receiver
that an ascent through the tree finds.  Both are about the conditional accesses whose second part
contains the binding: at every visit the stack holds the types of their receivers, outermost first,
and after the visit it is what it was.

## Main results

* `Arena.mem_receiversAround_iff`, `Arena.receiversAround_pairwise`: the receivers around a node.
* `Binder.stack_of_visit`, `Binder.typeOf_of_visit`: the stack at a visit.
* `Binder.bindings_read_the_receivers_around`: the binder and the analysis agree.
-/

namespace StateGuard

namespace Arena

variable {arena : Arena} {i receiver : arena.Id}

/-- The receivers around a node are those of the conditional accesses whose second part contains it.
-/
theorem mem_receiversAround_iff : receiver ∈ arena.receiversAround i ↔
    ∃ access rest, arena.node access = .conditionalAccess receiver rest ∧
      arena.isWithin i rest = true := by
  unfold receiversAround
  rw [List.mem_filterMap]
  constructor
  · rintro ⟨access, -, hAccess⟩
    unfold receiverBefore? at hAccess
    split at hAccess
    · next hNode =>
        split at hAccess
        · next hWithin =>
            obtain rfl := Option.some.inj hAccess
            exact ⟨access, _, hNode, hWithin⟩
        · cases hAccess
    · cases hAccess
  · rintro ⟨access, rest, hNode, hWithin⟩
    have hRest : rest ∈ (arena.node access).children := by simp [hNode, Node.children]
    have hMem : access ∈ arena.ancestors i := by
      refine mem_ancestors_iff.2 ⟨?_, isWithin_of_part hWithin hRest⟩
      rintro rfl
      exact Nat.lt_irrefl _ (depth_lt_of_isWithin_part hRest hWithin)
    exact ⟨access, List.mem_reverse.2 hMem, by simp [receiverBefore?, hNode, hWithin]⟩

/-- The receivers around a node are in order: what is around a receiver comes before it. -/
theorem receiversAround_pairwise (i : arena.Id) :
    (arena.receiversAround i).Pairwise fun outer inner => outer ∈ arena.receiversAround inner := by
  induction hDepth : arena.depth i using Nat.strongRecOn generalizing i with
  | ind depth ih =>
      cases hParent : arena.parent i with
      | none =>
          rw [receiversAround_of_parent_none hParent]
          exact .nil
      | some p =>
          have hChild := (arena.parent_eq_some_iff i p).1 hParent
          have hAbove := ih _ (hDepth ▸ depth_lt_of_parent hParent) p rfl
          rw [receiversAround_of_mem_children hChild]
          refine List.pairwise_append.2 ⟨hAbove, ?_, ?_⟩
          · cases arena.receiverBefore? i p <;> simp
          · intro outer hOuter inner hInner
            unfold receiverBefore? at hInner
            cases hNode : arena.node p with
            | conditionalAccess receiver rest =>
                have hEq : inner = receiver := by
                  simp only [hNode] at hInner
                  split at hInner <;> simp_all
                rw [hEq, receiversAround_part (i := p) (by simp [hNode, Node.children])
                  (fun _ _ h => (Node.conditionalAccess.inj (hNode.symm.trans h)).1)]
                exact hOuter
            | _ => simp [hNode] at hInner

end Arena

namespace Binder

open Arena

variable {tree : Tree} {config : Config}

/-- The receiver of a conditional access is no member of a unit. -/
theorem not_isMember_of_mem_receiversAround {i receiver : tree.Id}
    (h : receiver ∈ tree.receiversAround i) : ¬ IsMember receiver := by
  rintro ⟨-, p, members, hParent, hUnit⟩
  obtain ⟨access, rest, hNode, -⟩ := mem_receiversAround_iff.1 h
  have hAccess := (tree.parent_eq_some_iff receiver access).2 (by simp [hNode, Node.children])
  obtain rfl := Option.some.inj (hAccess.symm.trans hParent)
  simp [hNode] at hUnit

/-- A run with a stack computes the oracle, and each of its visits went right. -/
theorem wentRight_of_mem_visits (config : Config) {v : Visit tree.size}
    (hv : v ∈ (Logged.run tree config (.ofConfig config)).visits) :
    WentRight config (Logged.run tree config (.ofConfig config)) v :=
  (hasFollowed_run tree config (.ofConfig config)).1.sound.visits v hv

/-- **The stack at a visit** holds the types of the receivers around the node, outermost first. -/
theorem stack_of_visit {v : Visit tree.size}
    (hv : v ∈ (Logged.run tree config (.ofConfig config)).visits) :
    v.before.stack = (tree.receiversAround v.node).map (tree.bind config).typeOf := by
  obtain ⟨hFollowed, hOracle⟩ := hasFollowed_run tree config (.ofConfig config)
  have hComputed : List.Forall₂ (fun r type => r ∈ tree.receiversAround v.node ∧
      Computed (Logged.run tree config (.ofConfig config)).visits r type)
      (tree.receiversAround v.node) v.before.stack :=
    (List.forall₂_and_left _ _).2 ⟨fun _ hr => hr, (wentRight_of_mem_visits config hv).stack⟩
  have hRecorded : List.Forall₂ (fun r type => (tree.bind config).typeOf r = type)
      (tree.receiversAround v.node) v.before.stack := by
    refine hComputed.imp ?_
    rintro r type ⟨hMem, u, hu, rfl, rfl⟩
    have hType := (wentRight_of_mem_visits config hu).recorded.resolve_left
      (not_isMember_of_mem_receiversAround hMem)
    rw [Tree.bind, ← hOracle]
    exact hType
  have hEq := List.forall₂_map_left_iff.2 hRecorded
  rw [List.forall₂_eq_eq_eq] at hEq
  exact hEq.symm

/-- The type of a member binding is that of the member of what is on top of the stack. -/
theorem typeOf_of_visit {v : Visit tree.size}
    (hv : v ∈ (Logged.run tree config (.ofConfig config)).visits) {member : String}
    (hNode : tree.node v.node = .memberBinding member) :
    (tree.bind config).typeOf v.node = memberType config v.before.stack.getLast?.join member := by
  have hOracle := (hasFollowed_run tree config (.ofConfig config)).2
  have hRight := wentRight_of_mem_visits config hv
  have hMember : ¬ IsMember v.node := by
    rintro ⟨⟨name, hName⟩, -⟩
    simp [hNode, Node.declaredName?] at hName
  rw [Tree.bind, ← hOracle, hRight.recorded.resolve_left hMember, hRight.binding member hNode]

/-- **The binder and the analysis agree on what member bindings read from.** The binder with a stack
computes the oracle of the tree.  Each of its visits leaves the stack and the number of open scopes
as they were, and finds on the stack what has been computed for the receivers of exactly those
conditional accesses whose second part contains the node, outermost first.  At a member binding the
last of them is the receiver that the analysis finds, there is none exactly if it finds none, and
the binding has the type of its member on that receiver. -/
theorem bindings_read_the_receivers_around (ctx : Context) :
    let run := Logged.run ctx.tree ctx.config (.ofConfig ctx.config)
    let oracle := ctx.tree.bind ctx.config
    run.state.oracle = oracle ∧
    ∀ v ∈ run.visits, v.after = v.before ∧
      (∃ around : List ctx.Id,
        (∀ receiver, receiver ∈ around ↔ ∃ access rest,
          ctx.tree.node access = .conditionalAccess receiver rest ∧
            ctx.tree.isWithin v.node rest = true) ∧
        (around.Pairwise fun outer inner => ∃ access rest,
          ctx.tree.node access = .conditionalAccess outer rest ∧
            ctx.tree.isWithin inner rest = true) ∧
        List.Forall₂ (Computed run.visits) around v.before.stack ∧
        v.before.stack = around.map oracle.typeOf) ∧
      ∀ member, ctx.tree.node v.node = .memberBinding member →
        v.before.stack.getLast? = (ctx.bindingReceiver? v.node).map oracle.typeOf ∧
        (v.before.stack = [] ↔ ctx.bindingReceiver? v.node = none) ∧
        oracle.typeOf v.node =
          memberType ctx.config ((ctx.bindingReceiver? v.node).bind oracle.typeOf) member := by
  refine ⟨(hasFollowed_run ctx.tree ctx.config _).2, fun v hv => ?_⟩
  have hRight := wentRight_of_mem_visits ctx.config hv
  have hStack := stack_of_visit hv
  have hLast : v.before.stack.getLast? =
      (ctx.bindingReceiver? v.node).map (ctx.tree.bind ctx.config).typeOf := by
    rw [hStack, List.getLast?_map, ctx.bindingReceiver?_eq_getLast?]
  refine ⟨hRight.restored, ⟨ctx.tree.receiversAround v.node, fun _ => mem_receiversAround_iff, ?_,
    hRight.stack, hStack⟩, fun member hNode => ⟨hLast, ?_, ?_⟩⟩
  · exact (receiversAround_pairwise v.node).imp fun h => mem_receiversAround_iff.1 h
  · rw [← List.getLast?_eq_none_iff, hLast, Option.map_eq_none_iff]
  · rw [typeOf_of_visit hv hNode, hLast]
    cases ctx.bindingReceiver? v.node <;> rfl

/-- In a lambda that is handed to a member of `r`, a member of `s` is read from `s`. -/
theorem binding_in_an_argument :
    ∃ ctx : Context, ∃ v ∈ (Logged.run ctx.tree ctx.config (.ofConfig ctx.config)).visits,
      ctx.tree.node v.node = .memberBinding "b" ∧
      v.after.stack = [some (.named "int"), some (.named "string")] ∧
      (ctx.bindingReceiver? v.node).map (ctx.tree.bind ctx.config).typeOf =
        some (some (.named "string")) := by
  have hEval : ((Tree.ofSource id "lambda.cs"
      "int f(int r, string s) { return r?.a(x => s?.b)?.c; }").toOption.any fun tree =>
        (Logged.run tree {} (.ofConfig {})).visits.any fun v =>
          decide (tree.node v.node = .memberBinding "b" ∧
            v.before.stack = [some (.named "int"), some (.named "string")])) = true := by
    decide +kernel
  obtain ⟨tree, -, hTree⟩ := (Option.any_eq_true _ _).1 hEval
  rw [List.any_eq_true] at hTree
  obtain ⟨v, hv, hBoth⟩ := hTree
  obtain ⟨hNode, hStack⟩ := of_decide_eq_true hBoth
  let ctx : Context := ⟨⟨tree, tree.bind {}⟩, {}⟩
  obtain ⟨hRestored, -, hBinding⟩ := (bindings_read_the_receivers_around ctx).2 v hv
  refine ⟨ctx, v, hv, hNode, hRestored ▸ hStack, ?_⟩
  rw [← (hBinding "b" hNode).1, hStack]
  rfl

end Binder

end StateGuard
