import StateGuard.Proofs.Guard.UseSite
import StateGuard.Proofs.Safety.RawUnit

/-!
# Conditions and use sites before acceptance

The questions that all rules ask about single nodes, asked of a unit that a host hands in: types,
calls, the shapes of conditions and the reads of payloads.  On a unit that is accepted each of them
is answered at every number of a part, as it is for the node.

## Main results

* `AcceptedAs.callTaking_run`: the argument that a lambda is, by its position.
* `AcceptedAs.shape_run`: the shape of a condition.
* `AcceptedAs.bindingReceiver_run`, `AcceptedAs.useSite_run`: the receiver of a member binding, and
  the reads of payloads.
-/

namespace StateGuard.RawUnit

noncomputable section

variable (raw : RawUnit)

/-! ## Types and calls -/

/-- The classification of the type of a number. -/
def classify (i : Nat) : Classification :=
  match raw.typeOf i with
  | none => .unrelated
  | some type => raw.config.classify type

/-- The family of the wrapper that an expression evaluates to. -/
def wrapperFamily? (i : Nat) : Run (Option Nat) := do
  let i ← raw.stripParens i
  match (raw.classify i).wrapper? with
  | some family => return some family
  | none =>
    match ← raw.node i with
    | .await operand => return (raw.classify operand).asyncWrapper?
    | _ => return none

/-- A call of a method on a receiver. -/
structure Call where
  invocation : Nat
  receiver : Nat
  method : String
  args : List (Argument Nat)

/-- A part as the call of a method on a receiver. -/
def memberCall? (i : Nat) : Run (Option Call) := do
  match ← raw.node i with
  | .invocation callee args =>
    match ← raw.node (← raw.stripParens callee) with
    | .memberAccess receiver method => return some ⟨i, receiver, method, args⟩
    | _ => return none
  | _ => return none

/-- The member call of which a lambda is an argument, with the position of that argument. -/
def callTaking? (lambda : Nat) : Run (Option (Call × Nat)) := do
  match ← raw.parent lambda with
  | none => return none
  | some p =>
    match ← raw.memberCall? p with
    | none => return none
    | some call => return (call.args.findIdx? (·.value = lambda)).map (call, ·)

/-! ## Conditions -/

/-- The receiver and member of an expression that reads a single member. -/
def memberRead? (i : Nat) : Run (Option (Nat × String)) := do
  match ← raw.node (← raw.stripParens i) with
  | .memberAccess receiver member => return some (receiver, member)
  | .conditionalAccess receiver rest =>
    match ← raw.node rest with
    | .memberBinding member => return some (receiver, member)
    | _ => return none
  | _ => return none

/-- The subject and state of an expression that reads a discriminant. -/
def discriminant? (i : Nat) : Run (Option (Nat × State)) := do
  match ← raw.memberRead? i with
  | none => return none
  | some (subject, member) =>
    match ← raw.wrapperFamily? subject with
    | none => return none
    | some family =>
      match raw.config.role? family member with
      | some (.discriminant state) => return some (subject, state)
      | _ => return none

/-- The value of a boolean literal. -/
def boolLiteral? (i : Nat) : Run (Option Bool) := do
  match ← raw.node (← raw.stripParens i) with
  | .literal (.bool value) => return some value
  | _ => return none

/-- The shape of a test that a discriminant has a certain value. -/
def literalTest (operand : Nat) (expected : Bool) : Run (Shape Nat) := do
  match ← raw.discriminant? operand with
  | some (subject, state) => return .literal subject state expected
  | none => return .unrecognized

/-- The shape of an equality, or of an inequality. -/
def comparison (isEquality : Bool) (left right : Nat) : Run (Shape Nat) := do
  match ← raw.boolLiteral? left, ← raw.boolLiteral? right with
  | none, some value => raw.literalTest left (value == isEquality)
  | some value, none => raw.literalTest right (value == isEquality)
  | _, _ => return .unrecognized

/-- Whether a part is an out variable. -/
def isOutVariable (i : Nat) : Run Bool := do
  match ← raw.node i with
  | .outVariable .. => return true
  | _ => return false

/-- The shape of a call. -/
def tryCall (i : Nat) : Run (Shape Nat) := do
  match ← raw.memberCall? i with
  | none => return .unrecognized
  | some call =>
    match ← raw.wrapperFamily? call.receiver with
    | none => return .unrecognized
    | some family =>
      match raw.config.role? family call.method with
      | some (.tryAccessor state) =>
        return .tryAccessor call.receiver state
          (← (call.args.map (·.value)).findM? raw.isOutVariable)
      | _ => return .unrecognized

/-- The shape of a condition. -/
def shape : Nat → Run (Shape Nat) := Run.fix fun shape i => do
  let i ← raw.stripParens i
  match ← raw.node i with
  | .unary .not operand => return (← shape operand).negate
  | .binary .and left right => return .compound .conjunction (← shape left) (← shape right)
  | .binary .or left right => return .compound .disjunction (← shape left) (← shape right)
  | .binary .eq left right => raw.comparison true left right
  | .binary .notEq left right => raw.comparison false left right
  | .isPattern operand (.literal (.bool value)) => raw.literalTest operand value
  | .invocation .. => raw.tryCall i
  | _ =>
    match ← raw.discriminant? i with
    | some (subject, state) => return .discriminant subject state
    | none => return .unrecognized

/-- The facts that a condition proves about the place an expression reads. -/
def factsAbout (condition subject : Nat) : Run (List (Fact Nat)) := do
  (← raw.shape condition).facts.filterM fun fact => raw.sameLocation fact.subject subject

/-! ## Use sites -/

/-- The receiver that a member binding reads from. -/
def bindingReceiver? (i : Nat) : Run (Option Nat) := do
  (← raw.ancestors i).findSomeM? fun ancestor => do
    match ← raw.node ancestor with
    | .conditionalAccess receiver rest =>
      return if ← raw.isWithin i rest then some receiver else none
    | _ => return none

/-- A read of a payload. -/
structure Site where
  node : Nat
  member : String
  receiver : Nat
  family : Nat
  required : State

/-- The receiver and member of a part that reads a member. -/
def readMember? (i : Nat) : Run (Option (Nat × String)) := do
  match ← raw.node i with
  | .memberAccess receiver member => return some (receiver, member)
  | .memberBinding member => return (← raw.bindingReceiver? i).map (·, member)
  | _ => return none

/-- A part as a read of a payload. -/
def useSite? (i : Nat) : Run (Option Site) := do
  match ← raw.readMember? i with
  | none => return none
  | some (receiver, member) =>
    match ← raw.wrapperFamily? receiver with
    | none => return none
    | some family =>
      match raw.config.role? family member with
      | some (.payload state) => return some ⟨i, member, receiver, family, state⟩
      | _ => return none

/-- The lambda around an expression that has it as a parameter, and the position of that
parameter. -/
def lambdaParameter? (i : Nat) : Run (Option (Nat × Nat)) := do
  let i ← raw.stripParens i
  match ← raw.node i with
  | .identifier _ =>
    (← raw.ancestors i).findSomeM? fun ancestor => do
      match ← raw.node ancestor with
      | .lambda params _ _ =>
        return (params.findIdx? fun param => raw.sameSymbol param i).map (ancestor, ·)
      | _ => return none
  | _ => return none

/-- The projection whose elements an expression stands for. -/
def projection? (i : Nat) : Run (Option Call) := do
  match ← raw.lambdaParameter? i with
  | some (lambda, 0) =>
    match ← raw.callTaking? lambda with
    | some (call, _) =>
      return if raw.config.pipeline.isProjection call.method then some call else none
    | none => return none
  | _ => return none

/-! ## On an accepted unit -/

namespace AcceptedAs

variable {raw} {ctx : Context} (h : raw.AcceptedAs ctx)

/-- A call by the numbers of its parts. -/
def call (call : ctx.MemberCall) : Call :=
  ⟨call.invocation.val, call.receiver.val, call.method, call.args.map (·.map Fin.val)⟩

/-- A read by the numbers of its parts. -/
def site (site : ctx.UseSite) : Site :=
  ⟨site.node.val, site.member, site.receiver.val, site.family, site.required⟩

include h

theorem classify_eq (i : ctx.Id) : raw.classify i = ctx.answer (ctx.classify i) := by
  unfold RawUnit.classify Context.classify
  rw [h.typeOf, h.config]
  cases ctx.oracle.typeOf i <;> rfl

theorem wrapperFamily_run (i : ctx.Id) :
    raw.wrapperFamily? i = some (ctx.answer (ctx.wrapperFamily? i)) := by
  unfold RawUnit.wrapperFamily? Context.wrapperFamily?
  simp only [h.stripParens_run, Run.some_bind, h.classify_eq, Inquiry.answer_bind]
  cases (ctx.answer (ctx.classify (ctx.tree.stripParens i))).wrapper? with
  | some family => rfl
  | none =>
      simp only [h.node, Run.some_bind]
      cases ctx.tree.node (ctx.tree.stripParens i) with
      | await operand => simp [h.classify_eq]
      | _ => simp

theorem memberCall_run (i : ctx.Id) :
    raw.memberCall? i = some ((ctx.memberCall? i).map call) := by
  unfold RawUnit.memberCall? Context.memberCall?
  rw [h.node, Run.some_bind]
  cases ctx.tree.node i with
  | invocation callee args =>
      simp only [Node.map_invocation, h.stripParens_run, h.node, Run.some_bind]
      cases ctx.tree.node (ctx.tree.stripParens callee) with
      | memberAccess receiver method => rfl
      | _ => simp
  | _ => simp

omit h in
/-- The argument found is the one at the position found. -/
theorem getElem?_of_callTaking {lambda : ctx.Id} {found : ctx.MemberCall}
    {arg : Argument ctx.Id} {position : Nat}
    (hTaking : ctx.callTaking? lambda = some (found, arg, position)) :
    found.args[position]? = some arg := by
  simp only [Context.callTaking?, Option.bind_eq_bind, Option.bind_eq_some_iff] at hTaking
  obtain ⟨p, -, call, -, ⟨arg', position'⟩, hFound, hEq⟩ := hTaking
  obtain ⟨rfl, rfl, rfl⟩ : call = found ∧ arg' = arg ∧ position' = position := by
    simpa using hEq
  exact List.mk_mem_zipIdx_iff_getElem?.1 (List.mem_of_find?_eq_some hFound)

/-- **The argument that a lambda is,** by its position. -/
theorem callTaking_run (lambda : ctx.Id) : raw.callTaking? lambda =
    some ((ctx.callTaking? lambda).map fun (found, _, position) => (call found, position)) := by
  unfold RawUnit.callTaking? Context.callTaking?
  rw [h.parent, Run.some_bind]
  cases ctx.tree.parent lambda with
  | none => rfl
  | some p =>
      simp only [Option.map_some, h.memberCall_run, Run.some_bind]
      show _ = some (((ctx.memberCall? p).bind fun call => _).map _)
      cases ctx.memberCall? p with
      | none => rfl
      | some found =>
          have hPosition : (call found).args.findIdx? (fun arg => arg.value = lambda.val) =
              (found.args.zipIdx.find? fun x => x.1.value = lambda).map (·.2) := by
            have hArgs : (call found).args.findIdx? (fun arg => arg.value = lambda.val) =
                found.args.findIdx? fun arg => arg.value = lambda := by
              apply findIdx?_map_of_mem
              intro arg _
              exact decide_eq_decide.2 Fin.val_inj
            rw [hArgs]
            exact List.findIdx?_eq_fst_find?_zipIdx
          simp only [Option.map_some, Option.bind_some, hPosition]
          cases found.args.zipIdx.find? fun x => x.1.value = lambda <;> rfl

/-! ### Conditions -/

theorem memberRead_run (i : ctx.Id) :
    raw.memberRead? i = some ((ctx.memberRead? i).map (Prod.map Fin.val id)) := by
  unfold RawUnit.memberRead? Context.memberRead?
  simp only [h.stripParens_run, h.node, Run.some_bind]
  cases ctx.tree.node (ctx.tree.stripParens i) with
  | conditionalAccess receiver rest =>
      simp only [Node.map_conditionalAccess, h.node, Run.some_bind]
      cases ctx.tree.node rest <;> simp
  | _ => simp

theorem discriminant_run (i : ctx.Id) : raw.discriminant? i =
    some ((ctx.answer (ctx.discriminant? i)).map (Prod.map Fin.val id)) := by
  unfold RawUnit.discriminant? Context.discriminant?
  rw [h.memberRead_run, Run.some_bind]
  cases ctx.memberRead? i with
  | none => rfl
  | some read =>
      obtain ⟨subject, member⟩ := read
      simp only [Option.map_some, Prod.map_apply, id, h.wrapperFamily_run, Run.some_bind,
        Inquiry.answer_bind, h.config, Context.answer]
      cases (ctx.wrapperFamily? subject).answer ctx.config.classify with
      | none => rfl
      | some family =>
          dsimp only
          cases ctx.config.role? family member with
          | none => rfl
          | some role => cases role <;> rfl

theorem boolLiteral_run (i : ctx.Id) : raw.boolLiteral? i = some (ctx.boolLiteral? i) := by
  unfold RawUnit.boolLiteral? Context.boolLiteral?
  simp only [h.stripParens_run, h.node, Run.some_bind]
  cases ctx.tree.node (ctx.tree.stripParens i) with
  | literal value => cases value <;> rfl
  | _ => simp

theorem literalTest_run (operand : ctx.Id) (expected : Bool) :
    raw.literalTest operand expected =
      some ((ctx.answer (ctx.literalTest operand expected)).map Fin.val) := by
  simp only [RawUnit.literalTest, Context.literalTest, h.discriminant_run, Run.some_bind,
    Inquiry.answer_bind, Context.answer]
  cases (ctx.discriminant? operand).answer ctx.config.classify <;> rfl

theorem comparison_run (isEquality : Bool) (left right : ctx.Id) :
    raw.comparison isEquality left right =
      some ((ctx.answer (ctx.comparison isEquality left right)).map Fin.val) := by
  unfold RawUnit.comparison Context.comparison
  simp only [h.boolLiteral_run, Run.some_bind]
  cases ctx.boolLiteral? left with
  | none =>
      cases ctx.boolLiteral? right with
      | none => rfl
      | some value => exact h.literalTest_run left _
  | some value =>
      cases ctx.boolLiteral? right with
      | none => exact h.literalTest_run right _
      | some value' => rfl

theorem isOutVariable_run (i : ctx.Id) : raw.isOutVariable i = some (ctx.isOutVariable i) := by
  unfold RawUnit.isOutVariable Context.isOutVariable
  rw [h.node, Run.some_bind]
  cases ctx.tree.node i <;> simp

theorem tryCall_run (i : ctx.Id) :
    raw.tryCall i = some ((ctx.answer (ctx.tryCall i)).map Fin.val) := by
  unfold RawUnit.tryCall Context.tryCall
  rw [h.memberCall_run, Run.some_bind]
  cases ctx.memberCall? i with
  | none => rfl
  | some found =>
      have hValues : (call found).args.map (·.value) =
          (found.args.map (·.value)).map Fin.val := by
        simp [call, Argument.map, Function.comp_def]
      have hOut := Run.findM?_map (l := found.args.map (·.value)) fun i _ => h.isOutVariable_run i
      simp only [Option.map_some, hValues, hOut]
      simp only [call, h.wrapperFamily_run, Run.some_bind, Inquiry.answer_bind, h.config,
        Context.answer]
      cases (ctx.wrapperFamily? found.receiver).answer ctx.config.classify with
      | none => rfl
      | some family =>
          dsimp only
          cases ctx.config.role? family found.method with
          | none => rfl
          | some role => cases role <;> rfl

/-- An expression that may read a discriminant. -/
theorem discriminantShape_run (i : ctx.Id) :
    (do
      match ← raw.discriminant? i with
      | some (subject, state) => return Shape.discriminant subject state
      | none => return Shape.unrecognized : Run (Shape Nat)) =
    some ((ctx.answer (do
      match ← ctx.discriminant? i with
      | some (subject, state) => return Shape.discriminant subject state
      | none => return Shape.unrecognized)).map Fin.val) := by
  simp only [h.discriminant_run, Run.some_bind, Inquiry.answer_bind, Context.answer]
  cases (ctx.discriminant? i).answer ctx.config.classify <;> rfl

/-- **Recognizing a condition ends.** -/
theorem shape_run (i : ctx.Id) : raw.shape i = some ((ctx.answer (ctx.shape i)).map Fin.val) := by
  induction i using Context.shape.induct with
  | case1 i operand hNode ih =>
      refine Run.fix_of_call ih fun self hSelf => ?_
      rw [h.stripParens_run, Run.some_bind, h.node, hNode, Context.shape_not hNode,
        ← Shape.negate_map]
      simp only [Node.map_unary, Run.some_bind, hSelf]
      rfl
  | case2 i left right hNode ihLeft ihRight =>
      have hSides : ∀ side ∈ [left, right],
          raw.shape side = some ((ctx.answer (ctx.shape side)).map Fin.val) := by
        simpa using ⟨ihLeft, ihRight⟩
      refine Run.fix_of_calls [left, right] Fin.val _ hSides fun self hSelf => ?_
      rw [h.stripParens_run, Run.some_bind, h.node, hNode, Context.shape_and hNode,
        ← Shape.compound_map Fin.val fun _ _ => rfl]
      simp only [Node.map_binary, Run.some_bind, hSelf left (by simp), hSelf right (by simp)]
      rfl
  | case3 i left right hNode ihLeft ihRight =>
      have hSides : ∀ side ∈ [left, right],
          raw.shape side = some ((ctx.answer (ctx.shape side)).map Fin.val) := by
        simpa using ⟨ihLeft, ihRight⟩
      refine Run.fix_of_calls [left, right] Fin.val _ hSides fun self hSelf => ?_
      rw [h.stripParens_run, Run.some_bind, h.node, hNode, Context.shape_or hNode,
        ← Shape.compound_map Fin.val fun _ _ => rfl]
      simp only [Node.map_binary, Run.some_bind, hSelf left (by simp), hSelf right (by simp)]
      rfl
  | case4 i left right hNode =>
      refine Run.fix_of_no_call fun self => ?_
      rw [h.stripParens_run, Run.some_bind, h.node, hNode, Context.shape_eq hNode]
      exact h.comparison_run true left right
  | case5 i left right hNode =>
      refine Run.fix_of_no_call fun self => ?_
      rw [h.stripParens_run, Run.some_bind, h.node, hNode, Context.shape_notEq hNode]
      exact h.comparison_run false left right
  | case6 i operand value hNode =>
      refine Run.fix_of_no_call fun self => ?_
      rw [h.stripParens_run, Run.some_bind, h.node, hNode, Context.shape_test hNode]
      exact h.literalTest_run operand value
  | case7 i callee args hNode =>
      refine Run.fix_of_no_call fun self => ?_
      rw [h.stripParens_run, Run.some_bind, h.node, hNode, Context.shape_call hNode,
        Node.map_invocation]
      exact h.tryCall_run _
  | case8 i hNot hAnd hOr hEq hNotEq hTest hCall =>
      -- whatever is none of these forms may read a discriminant
      have hOther := h.discriminantShape_run (ctx.tree.stripParens i)
      refine Run.fix_of_no_call fun self => ?_
      rw [h.stripParens_run, Run.some_bind, h.node, Context.shape]
      cases hNode : ctx.tree.node (ctx.tree.stripParens i) with
      | invocation callee args => exact (hCall callee args hNode).elim
      | unary op operand =>
          cases op with
          | not => exact (hNot operand hNode).elim
          | negate => exact hOther
      | binary op left right =>
          cases op with
          | and => exact (hAnd left right hNode).elim
          | or => exact (hOr left right hNode).elim
          | eq => exact (hEq left right hNode).elim
          | notEq => exact (hNotEq left right hNode).elim
          | _ => exact hOther
      | isPattern operand pattern =>
          cases pattern with
          | literal value =>
              cases value with
              | bool value => exact (hTest operand value hNode).elim
              | _ => exact hOther
          | _ => exact hOther
      | localDeclaration name type init =>
          rw [Node.map_localDeclaration]
          exact hOther
      | returnStatement value =>
          rw [Node.map_returnStatement]
          exact hOther
      | ifStatement condition thenBranch elseBranch =>
          rw [Node.map_ifStatement]
          exact hOther
      | _ => exact hOther

/-! ### Use sites -/

/-- **The search for the receiver of a member binding ends.** -/
theorem bindingReceiver_run (i : ctx.Id) :
    raw.bindingReceiver? i = some ((ctx.bindingReceiver? i).map Fin.val) := by
  unfold RawUnit.bindingReceiver? Context.bindingReceiver?
  rw [h.ancestors_run, Run.some_bind]
  apply Run.findSomeM?_map
  intro ancestor _
  rw [h.node, Run.some_bind]
  cases ctx.tree.node ancestor with
  | conditionalAccess receiver rest =>
      simp only [Node.map_conditionalAccess, h.isWithin_run, Run.some_bind]
      cases ctx.tree.isWithin i rest <;> rfl
  | _ => simp

theorem readMember_run (i : ctx.Id) :
    raw.readMember? i = some ((ctx.readMember? i).map (Prod.map Fin.val id)) := by
  unfold RawUnit.readMember? Context.readMember?
  rw [h.node, Run.some_bind]
  cases ctx.tree.node i with
  | memberBinding member =>
      simp only [Node.map_memberBinding, h.bindingReceiver_run, Run.some_bind]
      cases ctx.bindingReceiver? i <;> rfl
  | _ => simp

theorem useSite_run (i : ctx.Id) :
    raw.useSite? i = some ((ctx.answer (ctx.useSite? i)).map site) := by
  unfold RawUnit.useSite? Context.useSite?
  rw [h.readMember_run, Run.some_bind]
  cases ctx.readMember? i with
  | none => rfl
  | some read =>
      obtain ⟨receiver, member⟩ := read
      simp only [Option.map_some, Prod.map_apply, id, h.wrapperFamily_run, Run.some_bind,
        Inquiry.answer_bind, h.config, Context.answer]
      cases (ctx.wrapperFamily? receiver).answer ctx.config.classify with
      | none => rfl
      | some family =>
          dsimp only
          cases ctx.config.role? family member with
          | none => rfl
          | some role => cases role <;> rfl

theorem lambdaParameter_run (i : ctx.Id) :
    raw.lambdaParameter? i = some ((ctx.lambdaParameter? i).map (Prod.map Fin.val id)) := by
  unfold RawUnit.lambdaParameter? Context.lambdaParameter?
  simp only [h.stripParens_run, h.node, Run.some_bind]
  cases ctx.tree.node (ctx.tree.stripParens i) with
  | identifier name =>
      simp only [Node.map_identifier, h.ancestors_run, Run.some_bind]
      apply Run.findSomeM?_map
      intro ancestor _
      rw [h.node, Run.some_bind]
      cases ctx.tree.node ancestor with
      | lambda params body isAsync =>
          have hPosition := findIdx?_map_of_mem (l := params) (f := Fin.val)
            (q := fun param => raw.sameSymbol param (ctx.tree.stripParens i))
            (fun param _ => h.sameSymbol_eq param (ctx.tree.stripParens i))
          simp only [Node.map_lambda, hPosition, Option.map_map]
          rfl
      | _ => simp
  | _ => simp

theorem projection_run (i : ctx.Id) :
    raw.projection? i = some ((ctx.projection? i).map (call ·.1)) := by
  unfold RawUnit.projection? Context.projection?
  rw [h.lambdaParameter_run, Run.some_bind]
  cases ctx.lambdaParameter? i with
  | none => rfl
  | some found =>
      obtain ⟨lambda, position⟩ := found
      cases position with
      | succ position => rfl
      | zero =>
          simp only [Option.map_some, Prod.map_apply, id, h.callTaking_run, Run.some_bind, h.config]
          cases ctx.callTaking? lambda with
          | none => rfl
          | some taking =>
              obtain ⟨found, arg, position⟩ := taking
              simp only [Option.map_some, call]
              cases ctx.config.pipeline.isProjection found.method <;> rfl

end AcceptedAs

end

end StateGuard.RawUnit
