import StateGuard.Proofs.Guard.Transfer
import StateGuard.Proofs.Safety.Run

/-!
# Units before acceptance

A host hands in parts that refer to each other by number, and answers about numbers.  Nothing says
that a number is one of a part, or that following numbers comes to an end.  The walks of this module
follow the numbers as they stand: a run has no result when it reads a part that is not there, and
none when it goes on forever.  On a unit that is accepted every one of them ends, with the result of
the walk through the tree.

## Main results

* `RawUnit.ancestors_of_cycle`: the walk up a cycle has no result.
* `RawUnit.acceptedAs_of_accept`: what acceptance says about the parts and the answers.
* `AcceptedAs.stripParens_run`, `AcceptedAs.render_run`, `AcceptedAs.sameLocation_run`: going down
  into an expression.
* `AcceptedAs.ancestors_run`, `AcceptedAs.isWithin_run`: going up.
* `AcceptedAs.preorder_run`: the stack of the walk through the whole tree runs empty.
-/

namespace StateGuard

/-- A unit as a host hands it in, with the configuration to judge it by. -/
structure RawUnit where
  file : String
  /-- The parts, which refer to each other by number. -/
  parts : Array Part
  root : Nat
  /-- What the host says about the type of a number, of a part or not. -/
  typeOf : Nat → Option TypeRef
  /-- What the host says about the declaration that a number stands for. -/
  symbolOf : Nat → Option String
  config : Config

namespace RawUnit

variable (raw : RawUnit)

/-- The unit under analysis, if the parts are accepted. -/
def accept : Except ArenaError Context := do
  let tree ← Tree.ofParts raw.file raw.parts raw.root
  let oracle : Oracle tree.size :=
    ⟨Vector.ofFn fun i => raw.typeOf i, Vector.ofFn fun i => raw.symbolOf i⟩
  return ⟨⟨tree, oracle⟩, raw.config⟩

/-! ## Following numbers -/

/-- Read the construct of a part. -/
def node (i : Nat) : Run (Node Nat) := raw.parts[i]?.map (·.node)

/-- Read the span of a part. -/
def span (i : Nat) : Run Span := raw.parts[i]?.map (·.span)

/-- Read the parent of a part: the first part that lists it. -/
def parent (i : Nat) : Run (Option Nat) :=
  raw.parts[i]?.map fun _ => raw.parts.findIdx? fun part => i ∈ part.node.children

/-- The numbers above a part, nearest first. -/
noncomputable def ancestors : Nat → Run (List Nat) := Run.fix fun ancestors i => do
  match ← raw.parent i with
  | none => return []
  | some p => return p :: (← ancestors p)

/-- Go up from `i` until `top` is reached, or else the end. -/
noncomputable def isWithin (i top : Nat) : Run Bool := i |> Run.fix fun isWithin i => do
  if i = top then return true
  else
    match ← raw.parent i with
    | none => return false
    | some p => isWithin p

/-- Go down through parentheses. -/
noncomputable def stripParens : Nat → Run Nat := Run.fix fun stripParens i => do
  match ← raw.node i with
  | .parenthesized inner => stripParens inner
  | _ => return i

/-- The numbers popped from a stack, where each pushes its parts. -/
noncomputable def drain : List Nat → Run (List Nat) := Run.fix fun drain stack => do
  match stack with
  | [] => return []
  | i :: stack =>
    let node ← raw.node i
    return i :: (← drain (node.children ++ stack))

/-- The numbers below the root in source order. -/
noncomputable def preorder : Run (List Nat) := raw.drain [raw.root]

/-- The name of a parameter. -/
def parameterName? (i : Nat) : Run (Option String) := do
  match ← raw.node i with
  | .parameter name _ => return some name
  | _ => return none

/-- The text of an argument behind the name it may be given by. -/
def labelled (name : Option String) (text : String) : String :=
  (match name with
    | some name => name ++ ": "
    | none => "") ++ text

/-- The source text of an expression. -/
noncomputable def render : Nat → Run String := Run.fix fun render i => do
  match ← raw.node i with
  | .identifier name => return name
  | .this => return "this"
  | .literal value => return value.render
  | .memberAccess receiver member => return (← render receiver) ++ "." ++ member
  | .conditionalAccess receiver rest => return (← render receiver) ++ "?" ++ (← render rest)
  | .memberBinding member => return "." ++ member
  | .invocation callee args =>
    let callee ← render callee
    let args ← args.mapM fun arg => do return labelled arg.name (← render arg.value)
    return callee ++ "(" ++ String.intercalate ", " args ++ ")"
  | .outVariable name type =>
    return "out " ++ (match type with
      | some type => type.shortDisplay
      | none => "var") ++ " " ++ name
  | .unary op operand => return op.symbol ++ (← render operand)
  | .binary op left right => return (← render left) ++ " " ++ op.symbol ++ " " ++ (← render right)
  | .isPattern operand pattern => return (← render operand) ++ pattern.render
  | .conditional condition whenTrue whenFalse =>
    return (← render condition) ++ " ? " ++ (← render whenTrue) ++ " : " ++ (← render whenFalse)
  | .lambda params body isAsync =>
    let names ← params.mapM raw.parameterName?
    let body ← render body
    return (if isAsync then "async " else "") ++ renderParameters (names.filterMap id) ++ " => " ++
      body
  | .await operand => return "await " ++ (← render operand)
  | .parenthesized inner => return "(" ++ (← render inner) ++ ")"
  | .parameter name _ => return name
  | _ => return ellipsis

/-- Whether two numbers are known to stand for the same declaration. -/
def sameSymbol (a b : Nat) : Bool :=
  match raw.symbolOf a, raw.symbolOf b with
  | some s, some t => s == t
  | _, _ => false

/-- Whether an expression is the enclosing object. -/
noncomputable def isThis (i : Nat) : Run Bool := do
  match ← raw.node (← raw.stripParens i) with
  | .this => return true
  | _ => return false

/-- Whether two expressions read the same place. -/
noncomputable def sameLocation (a b : Nat) : Run Bool :=
  (a, b) |> Run.fix fun sameLocation (a, b) => do
    let a ← raw.stripParens a
    let b ← raw.stripParens b
    match ← raw.node a, ← raw.node b with
    | .identifier _, .identifier _ => return raw.sameSymbol a b
    | .this, .this => return true
    | .memberAccess receiver member, .memberAccess receiver' member' =>
      if member == member' then sameLocation (receiver, receiver') else return false
    | .identifier _, .memberAccess receiver _ =>
      if ← raw.isThis receiver then return raw.sameSymbol a b else return false
    | .memberAccess receiver _, .identifier _ =>
      if ← raw.isThis receiver then return raw.sameSymbol a b else return false
    | _, _ => return false

/-! ## Runs without a result -/

section NoResult

variable {raw}

theorem length_of_ancestors {i p : Nat} {above : List Nat} (hParent : raw.parent i = some (some p))
    (h : raw.ancestors i = some above) :
    ∃ rest, raw.ancestors p = some rest ∧ rest.length < above.length := by
  rw [ancestors, Run.fix_eq_some_iff,
    ← Run.eventually_step_iff (P := fun run => run i = some above)] at h
  simp only [hParent, Run.some_bind] at h
  -- at any depth the walk from `p` comes to the same numbers
  have hAbove : ∀ {run : Run (List Nat)}, (run >>= fun rest => return p :: rest) = some above →
      ∃ rest, run = some rest ∧ p :: rest = above := by
    intro run hRun
    obtain ⟨rest, hRest, hEq⟩ := Option.bind_eq_some_iff.1 hRun
    exact ⟨rest, hRest, Option.some.inj hEq⟩
  obtain ⟨depth, hDepth⟩ := h.exists
  obtain ⟨rest, -, rfl⟩ := hAbove hDepth
  refine ⟨rest, ?_, Nat.lt_succ_self _⟩
  rw [ancestors, Run.fix_eq_some_iff]
  filter_upwards [h] with deeper hDeeper
  obtain ⟨rest', hRest, hEq⟩ := hAbove hDeeper
  rw [hRest, (List.cons.inj hEq).2]

/-- **The walk up a cycle never ends,** so what a walk finds is found by a run that ends. -/
theorem ancestors_of_cycle {i : Nat}
    (h : Relation.TransGen (fun c p => raw.parent c = some (some p)) i i) :
    raw.ancestors i = none := by
  -- going up shortens what is still above
  have hShorter : ∀ {j : Nat} {above : List Nat},
      Relation.TransGen (fun c p => raw.parent c = some (some p)) i j →
      raw.ancestors i = some above →
      ∃ rest, raw.ancestors j = some rest ∧ rest.length < above.length := by
    intro j above hUp hAbove
    induction hUp with
    | single hParent => exact length_of_ancestors hParent hAbove
    | tail _ hParent ih =>
        obtain ⟨middle, hMiddle, hLt⟩ := ih
        obtain ⟨rest, hRest, hLt'⟩ := length_of_ancestors hParent hMiddle
        exact ⟨rest, hRest, Nat.lt_trans hLt' hLt⟩
  cases hAbove : raw.ancestors i with
  | none => rfl
  | some above =>
      obtain ⟨rest, hRest, hLt⟩ := hShorter h hAbove
      obtain rfl : above = rest := Option.some.inj (hAbove.symm.trans hRest)
      exact absurd hLt (Nat.lt_irrefl _)

end NoResult

/-! ## Acceptance -/

/-- Reading by number finds what the context has: every part, its span and its parent, and the
answers of the oracle. -/
structure AcceptedAs (raw : RawUnit) (ctx : Context) : Prop where
  node : ∀ i : ctx.Id, raw.node i = some ((ctx.tree.node i).map Fin.val)
  span : ∀ i : ctx.Id, raw.span i = some (ctx.tree.span i)
  parent : ∀ i : ctx.Id, raw.parent i = some ((ctx.tree.parent i).map Fin.val)
  root : raw.root = ctx.tree.root.val
  file : raw.file = ctx.tree.file
  typeOf : ∀ i : ctx.Id, raw.typeOf i = ctx.oracle.typeOf i
  symbolOf : ∀ i : ctx.Id, raw.symbolOf i = ctx.oracle.symbolOf i
  config : raw.config = ctx.config

variable {raw} {ctx : Context}

/-- The part of a tree at a number below its size. -/
theorem getElem?_of_parts {tree : Tree} {parts : Array Part} (h : tree.parts = parts.toList)
    (i : tree.Id) : parts[i.val]? = some ⟨(tree.node i).map Fin.val, tree.span i⟩ := by
  rw [← Array.getElem?_toList, ← h]
  simp [Tree.parts, Arena.ids]

/-- A number is listed by its parent alone. -/
theorem mem_children_iff_parent {tree : Tree} (i p : tree.Id) :
    i.val ∈ ((tree.node p).map Fin.val).children ↔ tree.parent i = some p := by
  rw [Node.children_map, List.mem_map_of_injective Fin.val_injective, tree.parent_eq_some_iff]

/-- The first part that lists a number is its parent. -/
theorem findIdx?_of_parts {tree : Tree} {parts : Array Part} (h : tree.parts = parts.toList)
    (i : tree.Id) :
    (parts.findIdx? fun part => i.val ∈ part.node.children) = (tree.parent i).map Fin.val := by
  show parts.toList.toArray.findIdx? _ = _
  rw [List.findIdx?_toArray, ← h, Tree.parts, List.findIdx?_map]
  simp only [Function.comp_def, mem_children_iff_parent]
  cases hParent : tree.parent i with
  | none => simp
  | some p =>
      apply List.findIdx?_eq_some_iff_getElem.2
      refine ⟨by simp [Arena.ids], by simp [Arena.ids], ?_⟩
      intro j hj
      simp [Arena.ids, Fin.ext_iff]
      omega

/-- **What acceptance says:** every number below the size is that of a part, and the parts are those
of the tree. -/
theorem acceptedAs_of_accept (h : raw.accept = .ok ctx) : raw.AcceptedAs ctx := by
  unfold accept at h
  cases hTree : Tree.ofParts raw.file raw.parts raw.root with
  | error e => simp [hTree] at h
  | ok tree =>
      simp only [hTree] at h
      obtain ⟨hFile, hRoot, -, hParts⟩ := Tree.parts_ofParts hTree
      obtain rfl := Except.ok.inj h
      exact {
        node := fun i => by rw [node, getElem?_of_parts hParts]; rfl
        span := fun i => by rw [span, getElem?_of_parts hParts]; rfl
        parent := fun i => by
          rw [parent, getElem?_of_parts hParts, findIdx?_of_parts hParts]
          rfl
        root := hRoot.symm
        file := hFile.symm
        typeOf := fun i => by simp [Oracle.typeOf]
        symbolOf := fun i => by simp [Oracle.symbolOf]
        config := rfl }

theorem size_of_accept (h : raw.accept = .ok ctx) : ctx.tree.size = raw.parts.size := by
  unfold accept at h
  cases hTree : Tree.ofParts raw.file raw.parts raw.root with
  | error e => simp [hTree] at h
  | ok tree =>
      simp only [hTree] at h
      obtain rfl := Except.ok.inj h
      obtain ⟨-, -, hTable, -⟩ := Tree.parts_ofParts hTree
      simpa using congrArg Array.size hTable

/-! ## Walks through an accepted unit -/

namespace AcceptedAs

variable (h : raw.AcceptedAs ctx)
include h

/-- **Going down through parentheses ends.** -/
theorem stripParens_run (i : ctx.Id) : raw.stripParens i = some (ctx.tree.stripParens i).val := by
  fun_induction Arena.stripParens ctx.tree.toArena i with
  | case1 i inner hNode ih =>
      refine Run.fix_of_call ih fun self hSelf => ?_
      rw [h.node, hNode]
      exact hSelf
  | case2 i hNode =>
      refine Run.fix_of_no_call fun self => ?_
      rw [h.node, Run.some_bind]
      split
      · next hMap =>
          obtain ⟨inner, hInner, -⟩ := Node.eq_parenthesized_of_map hMap
          exact absurd hInner (hNode inner)
      · rfl

/-- **Going up ends.** -/
theorem ancestors_run (i : ctx.Id) :
    raw.ancestors i = some ((ctx.tree.ancestors i).map Fin.val) := by
  induction i using Arena.induction_parent with
  | step i ih =>
      cases hParent : ctx.tree.parent i with
      | none =>
          refine Run.fix_of_no_call fun self => ?_
          simp [h.parent, hParent, Arena.ancestors_of_parent_none hParent]
      | some p =>
          refine Run.fix_of_call (ih p hParent) fun self hSelf => ?_
          simp [h.parent, hParent, Arena.ancestors_of_parent hParent, hSelf]

theorem isWithin_run (i top : ctx.Id) :
    raw.isWithin i top = some (ctx.tree.isWithin i top) := by
  fun_induction Arena.isWithin ctx.tree.toArena i top with
  | case1 => exact Run.fix_of_no_call fun self => if_pos rfl
  | case2 i hNe hParent =>
      refine Run.fix_of_no_call fun self => ?_
      rw [if_neg (Fin.val_ne_of_ne hNe), h.parent, hParent]
      rfl
  | case3 i hNe p hParent ih =>
      refine Run.fix_of_call ih fun self hSelf => ?_
      rw [if_neg (Fin.val_ne_of_ne hNe), h.parent, hParent]
      exact hSelf

/-- A number on the stack is followed by all below it, then by the rest of the stack. -/
theorem drain_cons (i : ctx.Id) (stack order : List Nat) (hStack : raw.drain stack = some order) :
    raw.drain (i.val :: stack) = some ((ctx.tree.subtree i).map Fin.val ++ order) := by
  induction i using Arena.induction_parts generalizing stack order with
  | step i ih =>
      -- the parts of `i` are pushed above the rest, so each of them is drained in turn
      have hParts : ∀ parts : List ctx.Id, parts ⊆ (ctx.tree.node i).children →
          raw.drain (parts.map Fin.val ++ stack) =
            some ((parts.flatMap ctx.tree.subtree).map Fin.val ++ order) := by
        intro parts hSub
        induction parts with
        | nil => exact hStack
        | cons c parts ihParts =>
            have hRest := ihParts fun d hd => hSub (List.mem_cons_of_mem c hd)
            simpa using ih c (hSub List.mem_cons_self) _ _ hRest
      refine Run.fix_of_call (hParts _ (List.Subset.refl _)) fun self hSelf => ?_
      rw [Arena.subtree_eq]
      simp [h.node, Node.children_map, hSelf]

/-- **The walk through the tree ends.** -/
theorem preorder_run : raw.preorder = some (ctx.tree.preorder.map Fin.val) := by
  have hEmpty : raw.drain [] = some [] := Run.fix_of_no_call fun self => rfl
  rw [preorder, h.root, h.drain_cons ctx.tree.root [] [] hEmpty, List.append_nil]
  rfl

theorem parameterName_run (i : ctx.Id) :
    raw.parameterName? i = some (ctx.tree.parameterName? i) := by
  unfold parameterName? Arena.parameterName?
  rw [h.node]
  cases ctx.tree.node i with
  | localDeclaration name type init => cases init <;> rfl
  | returnStatement value => cases value <;> rfl
  | ifStatement condition thenBranch elseBranch => cases elseBranch <;> rfl
  | _ => rfl

/-- **Rendering ends.** -/
theorem render_run (i : ctx.Id) : raw.render i = some (ctx.tree.render i) := by
  induction i using Arena.induction_parts with
  | step i ih =>
      refine Run.fix_of_calls (ctx.tree.node i).children Fin.val ctx.tree.render ih
        fun self ih => ?_
      rw [Arena.render_eq_rendered, h.node]
      cases hNode : ctx.tree.node i with
      | memberAccess receiver member =>
          have hReceiver := ih receiver (by simp [hNode, Node.children])
          simp only [Node.map_memberAccess, Run.some_bind, hReceiver]
          rfl
      | conditionalAccess receiver rest =>
          have hReceiver := ih receiver (by simp [hNode, Node.children])
          have hRest := ih rest (by simp [hNode, Node.children])
          simp only [Node.map_conditionalAccess, Run.some_bind, hReceiver, hRest]
          rfl
      | invocation callee args =>
          rw [hNode] at ih
          have hCallee := ih callee List.mem_cons_self
          have hArgs : ((args.map (·.map Fin.val)).mapM fun arg => do
              return labelled arg.name (← self arg.value)) =
              some (args.map fun arg => labelled arg.name (ctx.tree.render arg.value)) := by
            apply Run.mapM_map
            intro arg hArg
            have hValue := ih arg.value (List.mem_cons_of_mem _ (List.mem_map_of_mem hArg))
            simp [Argument.map, hValue]
          simp only [Node.map_invocation, Run.some_bind, hCallee, hArgs]
          rfl
      | unary op operand =>
          have hOperand := ih operand (by simp [hNode, Node.children])
          simp only [Node.map_unary, Run.some_bind, hOperand]
          rfl
      | binary op left right =>
          have hLeft := ih left (by simp [hNode, Node.children])
          have hRight := ih right (by simp [hNode, Node.children])
          simp only [Node.map_binary, Run.some_bind, hLeft, hRight]
          rfl
      | isPattern operand pattern =>
          have hOperand := ih operand (by simp [hNode, Node.children])
          simp only [Node.map_isPattern, Run.some_bind, hOperand]
          rfl
      | conditional condition whenTrue whenFalse =>
          have hCondition := ih condition (by simp [hNode, Node.children])
          have hTrue := ih whenTrue (by simp [hNode, Node.children])
          have hFalse := ih whenFalse (by simp [hNode, Node.children])
          simp only [Node.map_conditional, Run.some_bind, hCondition, hTrue, hFalse]
          rfl
      | lambda params body isAsync =>
          have hNames := Run.mapM_map (l := params) fun p _ => h.parameterName_run p
          have hBody := ih body (by simp [hNode, Node.children])
          simp only [Node.map_lambda, Run.some_bind, hNames, hBody, List.filterMap_map]
          rfl
      | await operand =>
          have hOperand := ih operand (by simp [hNode, Node.children])
          simp only [Node.map_await, Run.some_bind, hOperand]
          rfl
      | parenthesized inner =>
          have hInner := ih inner (by simp [hNode, Node.children])
          simp only [Node.map_parenthesized, Run.some_bind, hInner]
          rfl
      | localDeclaration name type init =>
          rw [Node.map_localDeclaration]
          rfl
      | returnStatement value =>
          rw [Node.map_returnStatement]
          rfl
      | ifStatement condition thenBranch elseBranch =>
          rw [Node.map_ifStatement]
          rfl
      | _ => rfl

/-! ## Places -/

theorem sameSymbol_eq (i j : ctx.Id) : raw.sameSymbol i j = ctx.oracle.sameSymbol i j :=
  congrArg₂ (fun s t : Option String =>
    match s, t with
    | some s, some t => s == t
    | _, _ => false) (h.symbolOf i) (h.symbolOf j)

theorem isThis_run (i : ctx.Id) : raw.isThis i = some (ctx.tree.isThis i) := by
  unfold isThis Arena.isThis
  rw [h.stripParens_run, Run.some_bind, h.node, Run.some_bind]
  cases ctx.tree.node (ctx.tree.stripParens i) <;> simp

/-- **Comparing places ends.** -/
theorem sameLocation_run (i j : ctx.Id) :
    raw.sameLocation i j = some (ctx.sameLocation i j) := by
  unfold Context.sameLocation
  fun_induction StateGuard.sameLocation ctx.tree.toArena ctx.oracle i j with
  | case1 i j name name' hLeft hRight =>
      refine Run.fix_of_no_call fun self => ?_
      dsimp only
      rw [h.stripParens_run, h.stripParens_run]
      simp only [Run.some_bind, h.node, hLeft, hRight, Node.map_identifier, h.sameSymbol_eq]
      rfl
  | case2 i j hLeft hRight =>
      refine Run.fix_of_no_call fun self => ?_
      dsimp only
      rw [h.stripParens_run, h.stripParens_run]
      simp only [Run.some_bind, h.node, hLeft, hRight, Node.map_this]
      rfl
  | case3 i j receiver member receiver' member' hLeft hRight ih =>
      refine Run.fix_of_call ih fun self hSelf => ?_
      dsimp only
      rw [h.stripParens_run, h.stripParens_run]
      simp only [Run.some_bind, h.node, hLeft, hRight, Node.map_memberAccess, hSelf]
      cases member == member' <;> rfl
  | case4 i j name receiver member hLeft hRight =>
      refine Run.fix_of_no_call fun self => ?_
      dsimp only
      rw [h.stripParens_run, h.stripParens_run]
      simp only [Run.some_bind, h.node, hLeft, hRight, Node.map_identifier, Node.map_memberAccess,
        h.isThis_run, h.sameSymbol_eq]
      cases ctx.tree.isThis receiver <;> rfl
  | case5 i j receiver member name hLeft hRight =>
      refine Run.fix_of_no_call fun self => ?_
      dsimp only
      rw [h.stripParens_run, h.stripParens_run]
      simp only [Run.some_bind, h.node, hLeft, hRight, Node.map_identifier, Node.map_memberAccess,
        h.isThis_run, h.sameSymbol_eq]
      cases ctx.tree.isThis receiver <;> rfl
  | case6 i j hNames hThis hMembers hMixed hMixed' =>
      refine Run.fix_of_no_call fun self => ?_
      dsimp only
      rw [h.stripParens_run, h.stripParens_run]
      simp only [Run.some_bind, h.node]
      split
      case h_1 name name' ha hb =>
        exact (hNames name name' (Node.eq_identifier_of_map ha) (Node.eq_identifier_of_map hb)).elim
      case h_2 ha hb => exact (hThis (Node.eq_this_of_map ha) (Node.eq_this_of_map hb)).elim
      case h_3 ha hb =>
        obtain ⟨receiver, ha, -⟩ := Node.eq_memberAccess_of_map ha
        obtain ⟨receiver', hb, -⟩ := Node.eq_memberAccess_of_map hb
        exact (hMembers receiver _ receiver' _ ha hb).elim
      case h_4 ha hb =>
        obtain ⟨receiver, hb, -⟩ := Node.eq_memberAccess_of_map hb
        exact (hMixed _ receiver _ (Node.eq_identifier_of_map ha) hb).elim
      case h_5 ha hb =>
        obtain ⟨receiver, ha, -⟩ := Node.eq_memberAccess_of_map ha
        exact (hMixed' receiver _ _ ha (Node.eq_identifier_of_map hb)).elim
      case h_6 => rfl

end AcceptedAs

end RawUnit

end StateGuard
