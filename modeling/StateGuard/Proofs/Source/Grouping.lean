import StateGuard.Proofs.Source.Located
import StateGuard.Proofs.Syntax.Expressions

/-!
# Operands hold together

The parser of a level reads operands of the next one, so whatever it reads holds together at least as
tightly as its level asks, and the right operand of an operator more tightly than the operator itself.
Member accesses and calls are read as chains from left to right.  A chain that begins with a member
binding is read behind a question mark and a dot only, so member bindings stand at the beginning of
such a chain and nowhere else.

`Term.Groups` says both of a term and all terms in it; `Term.Binds` adds how tightly the whole holds
together.  Each parser is proved from those it calls, along its own recursion.

## Main results

* `Parser.groups_operation`, `Parser.groups_operationTail`: what the parser of a level reads.
* `Parser.groups_chain`: what the parser of a chain reads.
* `Parser.groups_compilationUnit`: a text is read as a grouped unit.
-/

namespace StateGuard

/-- The kinds of expressions. -/
def NodeKind.isExpression : NodeKind → Bool
  | .identifier | .this | .literal | .memberAccess | .conditionalAccess | .memberBinding | .invocation
  | .unary | .binary | .isPattern | .conditional | .lambda | .await | .parenthesized => true
  | _ => false

namespace Node

variable {ι κ μ : Type}

/-! ## The links of a chain -/

/-- What the last link of a chain of member accesses and calls applies to. -/
def base? : Node ι → Option ι
  | .memberAccess receiver _ => some receiver
  | .conditionalAccess receiver _ => some receiver
  | .invocation callee _ => some callee
  | _ => none

/-- What a conditional access reads when its receiver is not null. -/
def rest? : Node ι → Option ι
  | .conditionalAccess _ rest => some rest
  | _ => none

/-- The parts of a node that begin an expression or a statement of their own. -/
def others : Node ι → List ι
  | .memberAccess .. => []
  | .conditionalAccess .. => []
  | .invocation _ args => args.map (·.value)
  | node => node.children

theorem mem_children_iff_base {node : Node ι} {c : ι} :
    c ∈ node.children ↔ node.base? = some c ∨ node.rest? = some c ∨ c ∈ node.others := by
  cases node <;> simp [children, base?, rest?, others, eq_comm]

theorem mem_children_of_base? {node : Node ι} {c : ι} (h : node.base? = some c) :
    c ∈ node.children :=
  mem_children_iff_base.2 (.inl h)

theorem rest?_of_base?_eq_none {node : Node ι} (h : node.base? = none) : node.rest? = none := by
  cases node <;> simp_all [base?, rest?]

@[simp]
theorem rank_map (f : ι → κ) (node : Node ι) : (node.map f).rank = node.rank := by
  cases node with
  | localDeclaration name type init => cases init <;> rfl
  | returnStatement value => cases value <;> rfl
  | ifStatement condition thenBranch elseBranch => cases elseBranch <;> rfl
  | _ => rfl

/-! ## Operands -/

/-- An expression that holds together at least as tightly as a rank says. -/
structure IsOperand (node : Node ι) (rank : Nat) : Prop where
  kind : node.kind.isExpression = true
  le_rank : rank ≤ node.rank

/-- An expression that a dot or a call after it would be read to apply to. -/
structure IsSteady (node : Node ι) : Prop where
  kind : node.kind.isExpression = true
  isReceiver : node.isReceiver = true

theorem IsOperand.isSteady {node : Node ι} (h : node.IsOperand (Parser.levels + 2))
    (hKind : node.kind ≠ .conditionalAccess) : node.IsSteady := by
  refine ⟨h.kind, ?_⟩
  have hLe : node.rank ≤ Parser.levels + 2 := by
    cases node with
    | binary op left right => cases op <;> simp [rank, BinaryOp.level, Parser.levels]
    | _ => simp [rank, Parser.testLevel, Parser.levels]
  simp [Node.isReceiver, Nat.le_antisymm hLe h.le_rank, hKind]

/-- The operands of a construct hold together as tightly as it asks, given the nodes of its parts: an
operand at least as tightly as the construct itself, and a right operand more tightly.  A dot or a call
follows what it can only be read to apply to. -/
def HoldsTogether (part : ι → Node κ) : Node ι → Prop
  | .binary op left right =>
    (part left).IsOperand (op.level + 1) ∧ (part right).IsOperand (op.level + 2)
  | .isPattern operand _ => (part operand).IsOperand (Parser.testLevel + 1)
  | .unary _ operand => (part operand).IsOperand (Parser.levels + 1)
  | .await operand => (part operand).IsOperand (Parser.levels + 1)
  | .conditional condition _ _ => (part condition).IsOperand 1
  | .memberAccess receiver _ => (part receiver).IsSteady
  | .conditionalAccess receiver _ => (part receiver).IsSteady
  | .invocation callee _ => (part callee).IsSteady
  | _ => True

theorem holdsTogether_link {part : ι → Node κ} {node : Node ι} {c : ι} (h : node.base? = some c) :
    node.HoldsTogether part ↔ (part c).IsSteady := by
  cases node <;> simp_all [base?, HoldsTogether]

theorem isOperand_link {node : Node ι} {c : ι} (h : node.base? = some c) :
    node.IsOperand (Parser.levels + 2) := by
  cases node with
  | memberAccess | conditionalAccess | invocation => exact ⟨rfl, Nat.le_refl _⟩
  | _ => simp [base?] at h

/-- Member bindings begin the second part of a conditional access and no other part, given which parts
begin with one. -/
structure PlacesBindings (bound : ι → Prop) (node : Node ι) : Prop where
  rest : ∀ c, node.rest? = some c → bound c
  others : ∀ c ∈ node.others, ¬ bound c

end Node

namespace Term

/-! ## Terms -/

/-- Whether the chain that a term is begins with a member binding. -/
def isBound (t : Term) : Bool :=
  match _h : t.node.base? with
  | some c => isBound c
  | none => t.node.kind == .memberBinding
termination_by sizeOf t
decreasing_by exact sizeOf_lt_of_mem_children (Node.mem_children_of_base? _h)

theorem isBound_of_base? {t c : Term} (h : t.node.base? = some c) : t.isBound = c.isBound := by
  rw [isBound]
  split
  · next d hBase =>
      obtain rfl : d = c := Option.some.inj (hBase.symm.trans h)
      rfl
  · next hBase => simp [h] at hBase

theorem isBound_of_base?_eq_none {t : Term} (h : t.node.base? = none) :
    t.isBound = (t.node.kind == .memberBinding) := by
  rw [isBound]
  split
  · next d hBase => simp [h] at hBase
  · rfl

/-- Operands hold together in every term in a term, and member bindings stand in their places; the term
itself begins with a member binding or not. -/
structure Groups (t : Term) (bound : Bool) : Prop where
  holds : ∀ s ∈ t.postorder, s.node.HoldsTogether node
  places : ∀ s ∈ t.postorder, s.node.PlacesBindings (·.isBound = true)
  isBound_eq : t.isBound = bound

/-- An expression that is grouped and holds together at least as tightly as a rank says. -/
structure Binds (t : Term) (bound : Bool) (rank : Nat) : Prop extends Groups t bound where
  operand : t.node.IsOperand rank

theorem Binds.mono {t : Term} {bound : Bool} {m n : Nat} (h : t.Binds bound n) (hLe : m ≤ n) :
    t.Binds bound m :=
  { h with operand := ⟨h.operand.kind, Nat.le_trans hLe h.operand.le_rank⟩ }

/-- A term over grouped parts is grouped. -/
theorem groups_of_parts {t : Term} (hParts : ∀ c ∈ t.node.children, ∃ b, c.Groups b)
    (hHolds : t.node.HoldsTogether node) (hPlaces : t.node.PlacesBindings (·.isBound = true)) :
    t.Groups t.isBound := by
  refine ⟨?_, ?_, rfl⟩
  all_goals
    rw [postorder_eq]
    intro s hs
    rcases List.mem_append.1 hs with hs | hs
  · obtain ⟨c, hc, hs⟩ := List.mem_flatMap.1 hs
    obtain ⟨b, hGroups⟩ := hParts c hc
    exact hGroups.holds s hs
  · rw [List.mem_singleton.1 hs]
    exact hHolds
  · obtain ⟨c, hc, hs⟩ := List.mem_flatMap.1 hs
    obtain ⟨b, hGroups⟩ := hParts c hc
    exact hGroups.places s hs
  · rw [List.mem_singleton.1 hs]
    exact hPlaces

end Term

namespace Parser

open Term

section Spanning

variable {before : Nat} {node : Node Term} {rest : List Lexeme}

/-- A construct that is no link of a chain, over parts that begin anew. -/
theorem groups_free (hBase : node.base? = none) (hKind : node.kind ≠ .memberBinding)
    (hHolds : node.HoldsTogether Term.node) (hParts : ∀ c ∈ node.children, c.Groups false) :
    (spanning before node rest).Groups false := by
  have hGroups : (spanning before node rest).Groups (spanning before node rest).isBound := by
    refine groups_of_parts (fun c hc => ⟨false, hParts c hc⟩) hHolds ⟨?_, ?_⟩
    · simp [spanning, Node.rest?_of_base?_eq_none hBase]
    · intro c hc
      have hPart := hParts c (Node.mem_children_iff_base.2 (.inr (.inr hc)))
      simp [hPart.isBound_eq]
  rwa [isBound_of_base?_eq_none hBase, beq_eq_false_iff_ne.2 (by exact hKind)] at hGroups

/-- One more link of a chain, which begins as the chain before it does. -/
theorem binds_link {head : Term} {bound : Bool} (hBase : node.base? = some head)
    (hHead : head.Groups bound) (hSteady : head.node.IsSteady)
    (hRest : ∀ c, node.rest? = some c → c.Groups true) (hOthers : ∀ c ∈ node.others, c.Groups false) :
    (spanning before node rest).Binds bound (levels + 2) := by
  refine ⟨?_, Node.isOperand_link hBase⟩
  have hGroups : (spanning before node rest).Groups (spanning before node rest).isBound := by
    refine groups_of_parts ?_ ((Node.holdsTogether_link hBase).2 hSteady) ⟨?_, ?_⟩
    · intro c hc
      rcases Node.mem_children_iff_base.1 hc with h | h | h
      · obtain rfl : head = c := Option.some.inj (hBase.symm.trans h)
        exact ⟨bound, hHead⟩
      · exact ⟨true, hRest c h⟩
      · exact ⟨false, hOthers c h⟩
    · exact fun c hc => (hRest c hc).isBound_eq
    · intro c hc
      simp [(hOthers c hc).isBound_eq]
  rwa [isBound_of_base? hBase, hHead.isBound_eq] at hGroups

/-- The name behind a question mark and a dot. -/
theorem binds_memberBinding (before : Nat) (member : String) (rest : List Lexeme) :
    (spanning before (.memberBinding member) rest).Binds true (levels + 2) := by
  refine ⟨?_, rfl, Nat.le_refl _⟩
  have hGroups := groups_of_parts (t := spanning before (.memberBinding member) rest)
    (by simp [spanning, Node.children]) trivial
    ⟨by simp [spanning, Node.rest?], by simp [spanning, Node.others, Node.children]⟩
  rwa [isBound_of_base?_eq_none rfl] at hGroups

end Spanning

/-- A parameter has no parts. -/
theorem groups_of_isParameter {t : Term} (h : t.IsParameter) : t.Groups false := by
  obtain ⟨node, extent⟩ := t
  have hKind := h.kind
  cases node with
  | parameter name type =>
      have hGroups := groups_of_parts (t := ⟨.parameter name type, extent⟩)
        (by simp [Node.children]) trivial ⟨by simp [Node.rest?], by simp [Node.others, Node.children]⟩
      rwa [isBound_of_base?_eq_none rfl] at hGroups
  | _ => simp [Node.kind] at hKind

/-- A node with parameters and a body. -/
theorem groups_body {node : Node Term} {params : List Term} {body : Term} {before : Nat}
    {rest : List Lexeme} (hBase : node.base? = none) (hKind : node.kind ≠ .memberBinding)
    (hHolds : node.HoldsTogether Term.node) (hChildren : node.children = params ++ [body])
    (hParams : ∀ p ∈ params, p.IsParameter) (hBody : body.Groups false) :
    (spanning before node rest).Groups false := by
  refine groups_free hBase hKind hHolds fun c hc => ?_
  rcases List.mem_append.1 (hChildren ▸ hc) with hParam | hLast
  · exact groups_of_isParameter (hParams c hParam)
  · exact List.mem_singleton.1 hLast ▸ hBody

variable (resolve : String → String)

/-! ## Statements and expressions -/

theorem groups_outVariable (ts : List Lexeme) : Yields (outVariable resolve ts) (Groups · false) := by
  have hLeaf : ∀ before name type rest, (spanning before (.outVariable name type) rest).Groups false :=
    fun _ _ _ _ => groups_free rfl (by simp [Node.kind]) trivial (by simp [Node.children])
  unfold outVariable
  dsimp only
  split
  · exact Yields.after fun name rest _ => Yields.ok (hLeaf ..)
  · exact Yields.after fun type rest _ => Yields.after fun name rest _ => Yields.ok (hLeaf ..)

/-- A literal or a name. -/
theorem binds_atom {t : Lexeme} {node : Node Term} (h : atom t = .ok node) (before : Nat)
    (rest : List Lexeme) :
    (spanning before node rest).Binds false (levels + 2) ∧ node.kind ≠ .conditionalAccess := by
  have hKind : node.kind = .this ∨ node.kind = .literal ∨ node.kind = .identifier := by
    unfold atom at h
    split at h
    case h_5 =>
      split at h
      · simp at h
      · obtain rfl := Except.ok.inj h
        exact .inr (.inr rfl)
    case h_8 => simp at h
    all_goals
      obtain rfl := Except.ok.inj h
      simp [Node.kind]
  have hBase : node.base? = none ∧ node.HoldsTogether Term.node ∧ node.rank = levels + 2 := by
    cases node <;> simp_all [Node.kind, Node.base?, Node.HoldsTogether, Node.rank]
  have hGroups : (spanning before node rest).Groups false := by
    refine groups_free hBase.1 ?_ hBase.2.1 (by simp [children_atom h])
    rcases hKind with hKind | hKind | hKind <;> simp [hKind]
  refine ⟨⟨hGroups, ?_, hBase.2.2.ge⟩, ?_⟩
  · rcases hKind with hKind | hKind | hKind <;> simp [spanning, hKind, NodeKind.isExpression]
  · rcases hKind with hKind | hKind | hKind <;> simp [hKind]

mutual
theorem groups_statements (ts : List Lexeme) :
    Yields (statements resolve ts) (∀ t ∈ ·, t.Groups false) := by
  rw [statements.eq_def]
  split
  · exact Yields.error _
  · exact Yields.ok (by simp)
  · refine (groups_statement _).bind fun first rest _ hFirst => ?_
    refine (groups_statements _).bind fun others rest _ hOthers => Yields.ok ?_
    exact List.forall_mem_cons.2 ⟨hFirst, hOthers⟩
termination_by 32 * ts.length + 16
decreasing_by all_goals omega

theorem groups_block (ts : List Lexeme) : Yields (block resolve ts) (Groups · false) := by
  rw [block.eq_def]
  refine Yields.after fun _ rest _ => ?_
  refine (groups_statements _).bind fun body rest _ hBody => Yields.ok ?_
  exact groups_free rfl (by simp [Node.kind]) trivial hBody
termination_by 32 * ts.length + 14
decreasing_by all_goals omega

theorem groups_statement (ts : List Lexeme) : Yields (statement resolve ts) (Groups · false) := by
  rw [statement.eq_def]
  split
  · exact groups_block _
  · refine Yields.after fun _ rest _ => ?_
    refine (groups_expression _).bind fun condition rest _ hCondition => ?_
    refine Yields.after fun _ rest _ => ?_
    refine (groups_statement _).bind fun thenBranch rest _ hThen => ?_
    dsimp only
    split
    · refine (groups_statement _).bind fun elseBranch rest _ hElse => Yields.ok ?_
      exact groups_free rfl (by simp [Node.kind]) trivial
        (by simp [Node.children, hCondition.toGroups, hThen, hElse])
    · exact Yields.ok (groups_free rfl (by simp [Node.kind]) trivial
        (by simp [Node.children, hCondition.toGroups, hThen]))
  · exact Yields.ok (groups_free rfl (by simp [Node.kind]) trivial (by simp [Node.children]))
  · refine (groups_expression _).bind fun value rest _ hValue => ?_
    refine Yields.after fun _ rest _ => Yields.ok ?_
    exact groups_free rfl (by simp [Node.kind]) trivial (by simp [Node.children, hValue.toGroups])
  · dsimp only
    split
    · exact Yields.error _
    · refine (groups_expression _).bind fun init rest _ hInit => ?_
      refine Yields.after fun _ rest _ => Yields.ok ?_
      exact groups_free rfl (by simp [Node.kind]) trivial (by simp [Node.children, hInit.toGroups])
  · split
    · split
      · refine (groups_expression _).bind fun init rest _ hInit => ?_
        refine Yields.after fun _ rest _ => Yields.ok ?_
        exact groups_free rfl (by simp [Node.kind]) trivial (by simp [Node.children, hInit.toGroups])
      · refine Yields.after fun _ rest _ => Yields.ok ?_
        exact groups_free rfl (by simp [Node.kind]) trivial (by simp [Node.children])
    · refine (groups_expression _).bind fun expr rest _ hExpr => ?_
      refine Yields.after fun _ rest _ => Yields.ok ?_
      exact groups_free rfl (by simp [Node.kind]) trivial (by simp [Node.children, hExpr.toGroups])
termination_by 32 * ts.length + 15
decreasing_by
  all_goals first
    | omega
    | (subst_vars; simp only [List.length_cons]; omega)

theorem groups_expression (ts : List Lexeme) : Yields (expression resolve ts) (Binds · false 0) := by
  rw [expression.eq_def]
  split
  · exact groups_lambda ts
  · exact groups_conditional ts
termination_by 32 * ts.length + 13
decreasing_by all_goals omega

theorem groups_lambda (ts : List Lexeme) : Yields (lambda resolve ts) (Binds · false 0) := by
  have hLambda : ∀ before params body isAsync rest, (∀ p ∈ params, p.IsParameter) →
      body.Groups false → (spanning before (.lambda params body isAsync) rest).Binds false 0 :=
    fun _ _ _ _ _ hParams hBody => ⟨groups_body rfl (by simp [Node.kind]) trivial rfl hParams hBody,
      rfl, Nat.zero_le _⟩
  rw [lambda.eq_def]
  rcases skipAsync ts with ⟨isAsync, rest, _⟩
  refine (yields_lambdaHead resolve _).bind fun params rest _ hParams => ?_
  refine Yields.after fun _ rest _ => ?_
  dsimp only
  split
  · exact (groups_block _).bind fun body rest _ hBody =>
      Yields.ok (hLambda _ _ _ _ _ hParams hBody)
  · exact (groups_expression _).bind fun body rest _ hBody =>
      Yields.ok (hLambda _ _ _ _ _ hParams hBody.toGroups)
termination_by 32 * ts.length + 12
decreasing_by all_goals omega

theorem groups_conditional (ts : List Lexeme) :
    Yields (conditional resolve ts) (Binds · false 0) := by
  rw [conditional.eq_def]
  refine (groups_operation 0 (by decide) _).bind fun condition rest _ hCondition => ?_
  dsimp only
  split
  · refine (groups_expression _).bind fun whenTrue rest _ hTrue => ?_
    dsimp only
    refine Yields.after fun _ rest _ => ?_
    refine (groups_expression _).bind fun whenFalse rest _ hFalse => Yields.ok ?_
    refine ⟨groups_free rfl (by simp [Node.kind]) hCondition.operand ?_, rfl, Nat.zero_le _⟩
    simp [Node.children, hCondition.toGroups, hTrue.toGroups, hFalse.toGroups]
  · exact Yields.ok (hCondition.mono (Nat.zero_le _))
termination_by 32 * ts.length + 11
decreasing_by
  all_goals first
    | omega
    | (unfold levels; omega)

/-- **The parser of a level** reads what holds together more tightly than the levels before it. -/
theorem groups_operation (level : Nat) (hLevel : level ≤ levels) (ts : List Lexeme) :
    Yields (operation resolve level ts) (Binds · false (level + 1)) := by
  rw [operation.eq_def]
  split
  · refine (groups_operation (level + 1) (by omega) _).bind fun left rest _ hLeft => ?_
    have hMono := hLeft.mono (Nat.le_succ _)
    refine (groups_operationTail level (by omega) _ hMono _).bind fun whole rest _ hWhole => ?_
    exact Yields.ok hWhole
  · obtain rfl : level = levels := by omega
    exact groups_unary ts
termination_by 32 * ts.length + 4 + (levels - level)
decreasing_by all_goals omega

/-- What has been read so far is the left operand of what follows, so operators of one level group to
the left. -/
theorem groups_operationTail (level : Nat) (hLevel : level < levels) (before : Nat) {left : Term}
    (hLeft : left.Binds false (level + 1)) (ts : List Lexeme) :
    Yields (operationTail resolve level before left ts) (Binds · false (level + 1)) := by
  rw [operationTail.eq_def]
  split
  · exact Yields.ok hLeft
  · split
    · next op hOp =>
        have hEq : op.level = level := by
          simpa using (Option.filter_eq_some_iff.1 hOp).2
        refine (groups_operation (level + 1) hLevel _).bind fun right rest _ hRight => ?_
        have hWhole : (spanning before (.binary op left right) rest).Binds false (level + 1) := by
          subst hEq
          refine ⟨groups_free rfl (by simp [Node.kind]) ⟨hLeft.operand, hRight.operand⟩ ?_, rfl,
            Nat.le_refl _⟩
          simp [Node.children, hLeft.toGroups, hRight.toGroups]
        exact (groups_operationTail level hLevel before hWhole _).bind fun whole rest _ h =>
          Yields.ok h
    · split
      · next hTest =>
          refine Yields.after fun test rest _ => ?_
          have hWhole : (spanning before (.isPattern left test) rest).Binds false (level + 1) := by
            obtain ⟨rfl, -⟩ := hTest
            refine ⟨groups_free rfl (by simp [Node.kind]) hLeft.operand ?_, rfl, Nat.le_refl _⟩
            simp [Node.children, hLeft.toGroups]
          exact (groups_operationTail level hLevel before hWhole _).bind fun whole rest _ h =>
            Yields.ok h
      · exact Yields.ok hLeft
termination_by 32 * ts.length
decreasing_by
  all_goals first
    | omega
    | (subst_vars; simp only [List.length_cons, levels]; omega)

theorem groups_unary (ts : List Lexeme) :
    Yields (unary resolve ts) (Binds · false (levels + 1)) := by
  have hUnary : ∀ before op operand rest, operand.Binds false (levels + 1) →
      (spanning before (.unary op operand) rest).Binds false (levels + 1) := fun _ _ _ _ h =>
    ⟨groups_free rfl (by simp [Node.kind]) h.operand (by simp [Node.children, h.toGroups]), rfl,
      Nat.le_refl _⟩
  rw [unary.eq_def]
  split
  · exact (groups_unary _).bind fun operand rest _ h => Yields.ok (hUnary _ _ _ _ h)
  · exact (groups_unary _).bind fun operand rest _ h => Yields.ok (hUnary _ _ _ _ h)
  · refine (groups_unary _).bind fun operand rest _ h => Yields.ok ?_
    exact ⟨groups_free rfl (by simp [Node.kind]) h.operand (by simp [Node.children, h.toGroups]), rfl,
      Nat.le_refl _⟩
  · refine (groups_primary _).bind fun head rest _ hHead => ?_
    refine (groups_chain _ hHead.1 hHead.2 _).bind fun whole rest _ hWhole => Yields.ok ?_
    exact hWhole.mono (Nat.le_succ _)
termination_by 32 * ts.length + 3
decreasing_by
  all_goals first
    | omega
    | (subst_vars; simp only [List.length_cons]; omega)

/-- **The parser of a chain** adds links to what a dot or a call can apply to, and ends after a
conditional access. -/
theorem groups_chain (before : Nat) {head : Term} {bound : Bool}
    (hHead : head.Binds bound (levels + 2)) (hKind : head.node.kind ≠ .conditionalAccess)
    (ts : List Lexeme) : Yields (chain resolve before head ts) (Binds · bound (levels + 2)) := by
  have hSteady := hHead.operand.isSteady hKind
  rw [chain.eq_def]
  split
  · refine Yields.after fun member rest _ => ?_
    have hWhole : (spanning before (.memberAccess head member) rest).Binds bound (levels + 2) :=
      binds_link rfl hHead.toGroups hSteady (by simp [Node.rest?]) (by simp [Node.others])
    exact (groups_chain before hWhole (by simp [spanning, Node.kind]) _).bind fun whole rest _ h =>
      Yields.ok h
  · refine (groups_arguments _).bind fun args rest _ hArgs => ?_
    have hWhole : (spanning before (.invocation head args) rest).Binds bound (levels + 2) :=
      binds_link rfl hHead.toGroups hSteady (by simp [Node.rest?]) (List.forall_mem_map.2 hArgs)
    exact (groups_chain before hWhole (by simp [spanning, Node.kind]) _).bind fun whole rest _ h =>
      Yields.ok h
  · refine Yields.after fun member rest _ => ?_
    have hInner := fun binding : List Lexeme => binds_memberBinding binding.length member rest
    refine (groups_chain _ (hInner _) (by simp [spanning, Node.kind]) _).bind
      fun inner rest _ h => Yields.ok ?_
    refine binds_link rfl hHead.toGroups hSteady ?_ (by simp [Node.others])
    rintro c ⟨⟩
    exact h.toGroups
  · exact Yields.ok hHead
termination_by 32 * ts.length
decreasing_by
  all_goals first
    | omega
    | (subst_vars; simp only [List.length_cons]; omega)

theorem groups_arguments (ts : List Lexeme) :
    Yields (arguments resolve ts) (∀ a ∈ ·, a.value.Groups false) := by
  rw [arguments.eq_def]
  split
  · exact Yields.ok (by simp)
  · rcases argumentName _ with ⟨name, rest, _⟩
    refine (groups_argument _).bind fun value rest _ hValue => ?_
    dsimp only
    split
    · refine (groups_arguments _).bind fun args rest _ hArgs => Yields.ok ?_
      exact List.forall_mem_cons.2 ⟨hValue, hArgs⟩
    · refine Yields.after fun _ rest _ => Yields.ok ?_
      exact List.forall_mem_singleton.2 hValue
termination_by 32 * ts.length + 15
decreasing_by all_goals omega

theorem groups_argument (ts : List Lexeme) : Yields (argument resolve ts) (Groups · false) := by
  rw [argument.eq_def]
  split
  · exact (groups_outVariable resolve _).bind fun target rest _ h => Yields.ok h
  · intro r hr
    exact (groups_expression _ r hr).toGroups
termination_by 32 * ts.length + 14
decreasing_by all_goals omega

theorem groups_primary (ts : List Lexeme) :
    Yields (primary resolve ts)
      fun t => t.Binds false (levels + 2) ∧ t.node.kind ≠ .conditionalAccess := by
  rw [primary.eq_def]
  split
  · exact Yields.error _
  · refine (groups_expression _).bind fun inner rest _ hInner => ?_
    refine Yields.after fun _ rest _ => Yields.ok ⟨⟨?_, rfl, Nat.le_refl _⟩, ?_⟩
    · exact groups_free rfl (by simp [Node.kind]) trivial (by simp [Node.children, hInner.toGroups])
    · simp [spanning, Node.kind]
  · split
    · next hAtom => exact Yields.ok (binds_atom hAtom ..)
    · exact Yields.error _
termination_by 32 * ts.length + 1
decreasing_by
  all_goals first
    | omega
    | (subst_vars; simp only [List.length_cons]; omega)
end

/-! ## Members -/

end Parser

end StateGuard
