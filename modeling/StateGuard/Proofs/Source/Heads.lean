import StateGuard.Proofs.Source.Spans

/-!
# Where constructs begin

An operation begins with its first operand and a call with what is called; every other construct
begins with a lexeme of its own, before all its parts but the parameters.  So whether a node begins
where one of its parts begins can be told from the tree alone, whatever the text looks like.

## Main results

* `Parser.opens_expression`, `Parser.opens_statement`, `Parser.opens_member`: what is read begins with its
  head or with a lexeme of its own.
* `Tree.isHeaded_ofSource`: the same for the spans of whole trees.
-/

namespace StateGuard

/-- The part that a construct begins with, if it has no lexeme of its own before its parts. -/
def Node.head? {ι : Type} : Node ι → Option ι
  | .expressionStatement expr => some expr
  | .memberAccess receiver _ => some receiver
  | .conditionalAccess receiver _ => some receiver
  | .invocation callee _ => some callee
  | .binary _ left _ => some left
  | .isPattern operand _ => some operand
  | .conditional condition _ _ => some condition
  | _ => none

namespace Term

/-- The term begins with its head; without one it begins before all its parts but the parameters. -/
structure IsHeaded (t : Term) : Prop where
  head : ∀ c, t.node.head? = some c → c.extent.before = t.extent.before
  rest : t.node.head? = none → ∀ c ∈ t.node.children, c.node.kind ≠ .parameter →
    c.extent.before < t.extent.before

/-- A term that begins at some place, all the terms in it with their heads. -/
structure Opens (t : Term) (before : Nat) : Prop where
  headed : ∀ s ∈ t.postorder, s.IsHeaded
  before_eq : t.extent.before = before

theorem opens_of_parts {t : Term} (hParts : ∀ c ∈ t.node.children, ∃ n, c.Opens n)
    (h : t.IsHeaded) : t.Opens t.extent.before := by
  refine ⟨?_, rfl⟩
  rw [postorder_eq]
  intro s hs
  rcases List.mem_append.1 hs with hs | hs
  · obtain ⟨c, hc, hs⟩ := List.mem_flatMap.1 hs
    obtain ⟨n, hOpens⟩ := hParts c hc
    exact hOpens.headed s hs
  · rw [List.mem_singleton.1 hs]
    exact h

end Term

namespace Parser

open Term

/-! ## Terms -/

section Spanning

variable {before : Nat} {node : Node Term} {rest : List Lexeme}

theorem opens_leaf (hLeaf : node.children = []) (hHead : node.head? = none) :
    (spanning before node rest).Opens before := by
  have hNone : ∀ c, c ∉ (spanning before node rest).node.children := by simp [spanning, hLeaf]
  refine opens_of_parts (fun c hc => absurd hc (hNone c)) ⟨?_, fun _ c hc => absurd hc (hNone c)⟩
  simp [spanning, hHead]

/-- A node that begins with its first part. -/
theorem opens_head {t : Term} (hHead : node.head? = some t) (ht : t.Opens before)
    (hParts : ∀ c ∈ node.children, ∃ n, c.Opens n) :
    (spanning before node rest).Opens before := by
  refine opens_of_parts hParts ⟨?_, ?_⟩
  · intro c hc
    obtain rfl : t = c := Option.some.inj (hHead.symm.trans hc)
    exact ht.before_eq
  · intro hNone
    simp [spanning, hHead] at hNone

/-- A node that begins before its parts, parameters aside. -/
theorem opens_own (hHead : node.head? = none)
    (hParts : ∀ c ∈ node.children, ∃ n, c.Opens n ∧ (c.node.kind = .parameter ∨ n < before)) :
    (spanning before node rest).Opens before := by
  refine opens_of_parts (fun c hc => ?_) ⟨?_, ?_⟩
  · obtain ⟨n, hOpens, -⟩ := hParts c hc
    exact ⟨n, hOpens⟩
  · simp [spanning, hHead]
  · intro _ c hc hKind
    obtain ⟨n, hOpens, hCases⟩ := hParts c hc
    rw [hOpens.before_eq]
    exact hCases.resolve_left hKind

/-- A node that begins before its only part. -/
theorem opens_one {t : Term} {n : Nat} (hHead : node.head? = none) (hChildren : node.children = [t])
    (ht : t.Opens n) (hLt : n < before) : (spanning before node rest).Opens before := by
  refine opens_own hHead fun c hc => ?_
  rw [hChildren] at hc
  exact ⟨n, List.mem_singleton.1 hc ▸ ht, .inr hLt⟩

end Spanning

/-- A parameter has no parts. -/
theorem opens_of_isParameter {t : Term} (h : t.IsParameter) : t.Opens t.extent.before := by
  have hLeaf : t.node.children = [] ∧ t.node.head? = none := by
    have hKind := h.kind
    cases hNode : t.node <;> simp_all [Node.kind, Node.children, Node.head?]
  refine opens_of_parts (fun c hc => ?_) ⟨?_, ?_⟩
  · simp [hLeaf.1] at hc
  · simp [hLeaf.2]
  · simp [hLeaf.1]

/-- A node with parameters and a body begins before its body. -/
theorem opens_body {node : Node Term} {params : List Term} {body : Term} {before n : Nat}
    {rest : List Lexeme} (hHead : node.head? = none) (hChildren : node.children = params ++ [body])
    (hParams : ∀ p ∈ params, p.IsParameter) (hBody : body.Opens n) (hLt : n < before) :
    (spanning before node rest).Opens before := by
  refine opens_own hHead fun c hc => ?_
  rcases List.mem_append.1 (hChildren ▸ hc) with hParam | hLast
  · exact ⟨_, opens_of_isParameter (hParams c hParam), .inl (hParams c hParam).kind⟩
  · exact ⟨n, List.mem_singleton.1 hLast ▸ hBody, .inr hLt⟩

variable (resolve : String → String)

/-! ## Statements and expressions -/

theorem opens_outVariable (ts : List Lexeme) :
    Yields (outVariable resolve ts) (Opens · (ts.length + 1)) := by
  unfold outVariable
  dsimp only
  split
  · exact Yields.after fun name rest _ => Yields.ok (opens_leaf rfl rfl)
  · exact Yields.after fun type rest _ => Yields.after fun name rest _ =>
      Yields.ok (opens_leaf rfl rfl)

theorem head_atom {t : Lexeme} {node : Node Term} (h : atom t = .ok node) : node.head? = none := by
  unfold atom at h
  split at h
  case h_5 =>
    split at h
    · simp at h
    · obtain rfl := Except.ok.inj h
      rfl
  case h_8 => simp at h
  all_goals
    obtain rfl := Except.ok.inj h
    rfl

mutual
theorem opens_statements (ts : List Lexeme) :
    Yields (statements resolve ts) (∀ t ∈ ·, ∃ n, t.Opens n ∧ n ≤ ts.length) := by
  rw [statements.eq_def]
  split
  · exact Yields.error _
  · exact Yields.ok (by simp)
  · refine (opens_statement _).bind fun first rest _ hFirst => ?_
    dsimp only
    refine (opens_statements _).bind fun others rest' _ hOthers => Yields.ok ?_
    refine List.forall_mem_cons.2 ⟨⟨_, hFirst, Nat.le_refl _⟩, fun t ht => ?_⟩
    obtain ⟨n, hOpens, hLe⟩ := hOthers t ht
    exact ⟨n, hOpens, by omega⟩
termination_by 32 * ts.length + 16
decreasing_by all_goals omega

theorem opens_block (ts : List Lexeme) : Yields (block resolve ts) (Opens · ts.length) := by
  rw [block.eq_def]
  refine Yields.after fun _ rest _ => ?_
  dsimp only
  refine (opens_statements _).bind fun body rest' _ hBody => Yields.ok ?_
  refine opens_own rfl fun t ht => ?_
  obtain ⟨n, hOpens, hLe⟩ := hBody t ht
  exact ⟨n, hOpens, .inr (by omega)⟩
termination_by 32 * ts.length + 14
decreasing_by all_goals omega

theorem opens_statement (ts : List Lexeme) : Yields (statement resolve ts) (Opens · ts.length) := by
  rw [statement.eq_def]
  split
  · exact opens_block _
  · simp only [List.length_cons]
    refine Yields.after fun _ rest _ => ?_
    dsimp only
    refine (opens_expression _).bind fun condition rest _ hCondition => ?_
    dsimp only
    refine Yields.after fun _ rest _ => ?_
    dsimp only
    refine (opens_statement _).bind fun thenBranch rest _ hThen => ?_
    dsimp only
    split
    · refine (opens_statement _).bind fun elseBranch rest _ hElse => Yields.ok ?_
      refine opens_own rfl ?_
      simp only [Node.children, Option.toList_some, List.forall_mem_cons, List.not_mem_nil]
      exact ⟨⟨_, hCondition, .inr (by omega)⟩, ⟨_, hThen, .inr (by omega)⟩,
        ⟨_, hElse, .inr (by omega)⟩, by simp⟩
    · refine Yields.ok (opens_own rfl ?_)
      simp only [Node.children, Option.toList_none, List.forall_mem_cons, List.not_mem_nil]
      exact ⟨⟨_, hCondition, .inr (by omega)⟩, ⟨_, hThen, .inr (by omega)⟩, by simp⟩
  · exact Yields.ok (opens_leaf rfl rfl)
  · simp only [List.length_cons]
    refine (opens_expression _).bind fun value rest _ hValue => ?_
    dsimp only
    exact Yields.after fun _ rest _ => Yields.ok (opens_one rfl rfl hValue (by omega))
  · simp only [List.length_cons]
    split
    · exact Yields.error _
    · refine (opens_expression _).bind fun init rest _ hInit => ?_
      dsimp only
      exact Yields.after fun _ rest _ => Yields.ok (opens_one rfl rfl hInit (by omega))
  · split
    · split
      · refine (opens_expression _).bind fun init rest _ hInit => ?_
        dsimp only
        exact Yields.after fun _ rest _ => Yields.ok (opens_one rfl rfl hInit (by omega))
      · exact Yields.after fun _ rest _ => Yields.ok (opens_leaf rfl rfl)
    · refine (opens_expression _).bind fun expr rest _ hExpr => ?_
      refine Yields.after fun _ rest _ => Yields.ok (opens_head rfl hExpr ?_)
      exact List.forall_mem_singleton.2 ⟨_, hExpr⟩
termination_by 32 * ts.length + 15
decreasing_by
  all_goals first
    | omega
    | (subst_vars; simp only [List.length_cons]; omega)

theorem opens_expression (ts : List Lexeme) :
    Yields (expression resolve ts) (Opens · ts.length) := by
  rw [expression.eq_def]
  split
  · exact opens_lambda ts
  · exact opens_conditional ts
termination_by 32 * ts.length + 13
decreasing_by all_goals omega

theorem opens_lambda (ts : List Lexeme) : Yields (lambda resolve ts) (Opens · ts.length) := by
  rw [lambda.eq_def]
  rcases skipAsync ts with ⟨isAsync, rest, _⟩
  refine (yields_lambdaHead resolve _).bind fun params rest _ hParams => ?_
  dsimp only
  refine Yields.after fun _ rest _ => ?_
  dsimp only
  split
  · refine (opens_block _).bind fun body rest' _ hBody => Yields.ok ?_
    exact opens_body rfl rfl hParams hBody (by omega)
  · refine (opens_expression _).bind fun body rest' _ hBody => Yields.ok ?_
    exact opens_body rfl rfl hParams hBody (by omega)
termination_by 32 * ts.length + 12
decreasing_by all_goals omega

theorem opens_conditional (ts : List Lexeme) :
    Yields (conditional resolve ts) (Opens · ts.length) := by
  rw [conditional.eq_def]
  refine (opens_operation 0 _).bind fun condition rest _ hCondition => ?_
  dsimp only
  split
  · refine (opens_expression _).bind fun whenTrue rest _ hTrue => ?_
    dsimp only
    refine Yields.after fun _ rest _ => ?_
    dsimp only
    refine (opens_expression _).bind fun whenFalse rest _ hFalse => Yields.ok ?_
    refine opens_head rfl hCondition ?_
    simp only [Node.children, List.forall_mem_cons, List.not_mem_nil]
    exact ⟨⟨_, hCondition⟩, ⟨_, hTrue⟩, ⟨_, hFalse⟩, by simp⟩
  · exact Yields.ok hCondition
termination_by 32 * ts.length + 11
decreasing_by
  all_goals first
    | omega
    | (unfold levels; omega)

theorem opens_operation (level : Nat) (ts : List Lexeme) :
    Yields (operation resolve level ts) (Opens · ts.length) := by
  rw [operation.eq_def]
  split
  · refine (opens_operation (level + 1) _).bind fun left rest _ hLeft => ?_
    dsimp only
    exact (opens_operationTail level _ hLeft).bind fun whole rest _ hWhole => Yields.ok hWhole
  · exact opens_unary ts
termination_by 32 * ts.length + 4 + (levels - level)
decreasing_by all_goals omega

theorem opens_operationTail (level : Nat) {before : Nat} {left : Term} (ts : List Lexeme)
    (hLeft : left.Opens before) :
    Yields (operationTail resolve level before left ts) (Opens · before) := by
  rw [operationTail.eq_def]
  split
  · exact Yields.ok hLeft
  · split
    · next op _ =>
        refine (opens_operation (level + 1) _).bind fun right rest _ hRight => ?_
        dsimp only
        have hWhole : (spanning before (.binary op left right) rest).Opens before := by
          refine opens_head rfl hLeft ?_
          simp only [Node.children, List.forall_mem_cons, List.not_mem_nil]
          exact ⟨⟨_, hLeft⟩, ⟨_, hRight⟩, by simp⟩
        exact (opens_operationTail level _ hWhole).bind fun whole rest _ h => Yields.ok h
    · split
      · refine Yields.after fun test rest _ => ?_
        dsimp only
        have hWhole : (spanning before (.isPattern left test) rest).Opens before :=
          opens_head rfl hLeft (List.forall_mem_singleton.2 ⟨_, hLeft⟩)
        exact (opens_operationTail level _ hWhole).bind fun whole rest _ h => Yields.ok h
      · exact Yields.ok hLeft
termination_by 32 * ts.length
decreasing_by
  all_goals first
    | omega
    | (subst_vars; simp only [List.length_cons, levels]; omega)

theorem opens_unary (ts : List Lexeme) : Yields (unary resolve ts) (Opens · ts.length) := by
  rw [unary.eq_def]
  split
  · exact (opens_unary _).bind fun operand rest _ hOperand =>
      Yields.ok (opens_one rfl rfl hOperand (by simp))
  · exact (opens_unary _).bind fun operand rest _ hOperand =>
      Yields.ok (opens_one rfl rfl hOperand (by simp))
  · exact (opens_unary _).bind fun operand rest _ hOperand =>
      Yields.ok (opens_one rfl rfl hOperand (by simp))
  · refine (opens_primary _).bind fun head rest _ hHead => ?_
    dsimp only
    exact (opens_chain _ hHead).bind fun whole rest _ hWhole => Yields.ok hWhole
termination_by 32 * ts.length + 3
decreasing_by
  all_goals first
    | omega
    | (subst_vars; simp only [List.length_cons]; omega)

theorem opens_chain {before : Nat} {head : Term} (ts : List Lexeme) (hHead : head.Opens before) :
    Yields (chain resolve before head ts) (Opens · before) := by
  rw [chain.eq_def]
  split
  · refine Yields.after fun member rest _ => ?_
    dsimp only
    have hWhole : (spanning before (.memberAccess head member) rest).Opens before :=
      opens_head rfl hHead (List.forall_mem_singleton.2 ⟨_, hHead⟩)
    exact (opens_chain _ hWhole).bind fun whole rest _ h => Yields.ok h
  · refine (opens_arguments _).bind fun args rest _ hArgs => ?_
    dsimp only
    have hWhole : (spanning before (.invocation head args) rest).Opens before :=
      opens_head rfl hHead (List.forall_mem_cons.2 ⟨⟨_, hHead⟩, hArgs⟩)
    exact (opens_chain _ hWhole).bind fun whole rest _ h => Yields.ok h
  · next binding =>
      refine Yields.after fun member rest _ => ?_
      dsimp only
      have hInner : (spanning binding.length (.memberBinding member) rest).Opens binding.length :=
        opens_leaf rfl rfl
      refine (opens_chain _ hInner).bind fun inner rest _ h => Yields.ok ?_
      refine opens_head rfl hHead ?_
      simp only [Node.children, List.forall_mem_cons, List.not_mem_nil]
      exact ⟨⟨_, hHead⟩, ⟨_, h⟩, by simp⟩
  · exact Yields.ok hHead
termination_by 32 * ts.length
decreasing_by
  all_goals first
    | omega
    | (subst_vars; simp only [List.length_cons]; omega)

theorem opens_arguments (ts : List Lexeme) :
    Yields (arguments resolve ts) (∀ t ∈ ·.map (·.value), ∃ n, t.Opens n) := by
  rw [arguments.eq_def]
  split
  · exact Yields.ok (by simp)
  · rcases argumentName _ with ⟨name, rest, _⟩
    refine (opens_argument _).bind fun value rest _ hValue => ?_
    dsimp only
    split
    · refine (opens_arguments _).bind fun args rest _ hArgs => Yields.ok ?_
      exact List.forall_mem_cons.2 ⟨⟨_, hValue⟩, hArgs⟩
    · exact Yields.after fun _ rest _ => Yields.ok (List.forall_mem_singleton.2 ⟨_, hValue⟩)
termination_by 32 * ts.length + 15
decreasing_by all_goals omega

theorem opens_argument (ts : List Lexeme) : Yields (argument resolve ts) (Opens · ts.length) := by
  rw [argument.eq_def]
  split
  · exact (opens_outVariable resolve _).bind fun target rest _ h => Yields.ok h
  · exact opens_expression _
termination_by 32 * ts.length + 14
decreasing_by all_goals omega

theorem opens_primary (ts : List Lexeme) : Yields (primary resolve ts) (Opens · ts.length) := by
  rw [primary.eq_def]
  split
  · exact Yields.error _
  · refine (opens_expression _).bind fun inner rest _ hInner => ?_
    exact Yields.after fun _ rest _ => Yields.ok (opens_one rfl rfl hInner (by simp))
  · split
    · next hAtom => exact Yields.ok (opens_leaf (children_atom hAtom) (head_atom hAtom))
    · exact Yields.error _
termination_by 32 * ts.length + 1
decreasing_by
  all_goals first
    | omega
    | (subst_vars; simp only [List.length_cons]; omega)
end

/-! ## Members -/

theorem opens_member (ts : List Lexeme) : Yields (member resolve ts) (Opens · ts.length) := by
  unfold member
  rcases skipModifiers ts with ⟨_, rest, _⟩
  dsimp only
  rcases skipAsync rest with ⟨isAsync, rest, _⟩
  dsimp only
  rcases skipModifiers rest with ⟨_, rest, _⟩
  dsimp only
  refine Yields.after fun type rest _ => ?_
  dsimp only
  refine Yields.after fun name rest _ => ?_
  dsimp only
  split
  · refine (yields_parameterList resolve _).bind fun params rest _ hParams => ?_
    dsimp only
    refine (opens_block resolve _).bind fun body rest _ hBody => Yields.ok ?_
    exact opens_body rfl rfl hParams hBody (by omega)
  · split
    · exact Yields.error _
    · split
      · refine (opens_expression resolve _).bind fun init rest _ hInit => ?_
        dsimp only
        exact Yields.after fun _ rest _ => Yields.ok (opens_one rfl rfl hInit (by omega))
      · exact Yields.after fun _ rest _ => Yields.ok (opens_leaf rfl rfl)

/-- **All terms in the members of a unit begin with their heads** or with a lexeme of their own. -/
theorem opens_members (ts : List Lexeme) {all : List Term} (h : members resolve ts = .ok all) :
    ∀ t ∈ all, ∃ n, t.Opens n := by
  rw [members.eq_def] at h
  split at h
  · obtain rfl := Except.ok.inj h
    simp
  · obtain ⟨⟨first, rest, _⟩, hFirst, h⟩ := exists_of_bind_eq_ok h
    obtain ⟨others, hOthers, h⟩ := exists_of_bind_eq_ok h
    obtain rfl := Except.ok.inj h
    exact List.forall_mem_cons.2 ⟨⟨_, opens_member resolve _ _ hFirst⟩, opens_members rest hOthers⟩
termination_by ts.length
decreasing_by omega

end Parser

/-! ## Trees -/

namespace TokenStream.Follow

variable {spans : Array Span} {e f : Extent}

/-- Extents that begin with the same token have spans that begin at the same place. -/
theorem start_locate_eq (spans : Array Span) (he : Covers spans.size e) (hf : Covers spans.size f)
    (hSame : f.before = e.before) : (locate spans f).start = (locate spans e).start := by
  obtain ⟨first, last, hFirst, -, hLocate⟩ := exists_locate spans he
  obtain ⟨first', last', hFirst', -, hLocate'⟩ := exists_locate spans hf
  rw [hSame] at hFirst'
  obtain rfl : first = first' := Option.some.inj (hFirst.symm.trans hFirst')
  rw [hLocate, hLocate']

/-- An extent that begins with an earlier token has a span that begins at an earlier place. -/
theorem start_locate_before (h : Follow spans) (he : Covers spans.size e) (hf : Covers spans.size f)
    (hLater : f.before < e.before) : (locate spans e).start.Before (locate spans f).start := by
  obtain ⟨first, last, hFirst, -, hLocate⟩ := exists_locate spans he
  obtain ⟨first', last', hFirst', -, hLocate'⟩ := exists_locate spans hf
  have hOrder : spans.size - e.before < spans.size - f.before := by
    have := he.2
    omega
  have hBefore := (h.covers hFirst).trans_le (h.apart hFirst hFirst' hOrder)
  rw [hLocate, hLocate']
  exact hBefore

end TokenStream.Follow

namespace Tree

/-- All nodes but the root begin where their heads begin, or before all their parts but the
parameters. -/
structure IsHeaded (tree : Tree) : Prop where
  head : ∀ p c, p ≠ tree.root → (tree.node p).head? = some c →
    (tree.span c).start = (tree.span p).start
  rest : ∀ p c, p ≠ tree.root → (tree.node p).head? = none → c ∈ (tree.node p).children →
    (tree.node c).kind ≠ .parameter → (tree.span p).start.Before (tree.span c).start

end Tree

theorem Node.head?_map {ι κ : Type} (f : ι → κ) (node : Node ι) :
    (node.map f).head? = node.head?.map f := by
  cases node with
  | localDeclaration name type init => cases init <;> rfl
  | returnStatement value => cases value <;> rfl
  | ifStatement condition thenBranch elseBranch => cases elseBranch <;> rfl
  | _ => rfl

/-- The head is the first part. -/
theorem Node.exists_children_of_head? {ι : Type} {node : Node ι} {c : ι} (h : node.head? = some c) :
    ∃ others, node.children = c :: others := by
  cases node <;> simp_all [head?, children]

namespace Parser

variable {resolve : String → String} {ts : List Lexeme} {unit : Term} {tree : Tree}

/-- The terms of a unit below the unit itself begin with their heads. -/
theorem isHeaded_of_ne_root (hUnit : compilationUnit resolve ts = .ok unit)
    (hTree : unit.IsTree tree) {i : tree.Id} (hi : i ≠ tree.root) : (hTree.subterm i).IsHeaded := by
  obtain ⟨m, hm, hMem⟩ := hTree.subterm_mem_parts hi
  obtain ⟨all, hAll, rfl⟩ := compilationUnit_eq_ok hUnit
  obtain ⟨n, hOpens⟩ := opens_members resolve ts hAll m hm
  exact hOpens.headed _ hMem

/-- **The tree of a unit is headed,** if its lexemes stand at places that follow each other. -/
theorem isHeaded_of_compilationUnit {file : String} {spans : Array Span}
    (hUnit : compilationUnit resolve ts = .ok unit)
    (hToTree : unit.toTree file (TokenStream.locate spans) = .ok tree)
    (hFollow : TokenStream.Follow spans) (hSize : ts.length = spans.size) : tree.IsHeaded := by
  have hTree := Term.isTree_toTree hToTree
  have hSpan := Term.span_toTree hToTree
  have hCovers : ∀ c, c ≠ tree.root → ∀ i,
      TokenStream.Covers spans.size (hTree.subterm i).extent := fun c hc i =>
    hSize ▸ covers_subterm hUnit hTree hc i
  constructor
  · intro p c hp hHead
    have hTerm : (hTree.subterm p).node.head? = some (hTree.subterm c) := by
      rw [← hTree.map_subterm_node, Node.head?_map, hHead, Option.map_some]
    rw [hSpan, hSpan]
    exact TokenStream.Follow.start_locate_eq spans (hCovers p hp p) (hCovers p hp c)
      ((isHeaded_of_ne_root hUnit hTree hp).head _ hTerm)
  · intro p c hp hHead hc hKind
    have hTerm : (hTree.subterm p).node.head? = none := by
      rw [← hTree.map_subterm_node, Node.head?_map, hHead, Option.map_none]
    have hPart : hTree.subterm c ∈ (hTree.subterm p).node.children := by
      rw [← hTree.map_subterm_node, Node.children_map]
      exact List.mem_map_of_mem hc
    have hPartKind : (hTree.subterm c).node.kind ≠ .parameter := by
      rw [← hTree.map_subterm_node, Node.kind_map]
      exact hKind
    rw [hSpan, hSpan]
    exact hFollow.start_locate_before (hCovers p hp p) (hCovers p hp c)
      ((isHeaded_of_ne_root hUnit hTree hp).rest hTerm _ hPart hPartKind)

end Parser

/-- **The tree of a text is headed.** -/
theorem Tree.isHeaded_ofSource {resolve : String → String} {file source : String} {tree : Tree}
    (h : Tree.ofSource resolve file source = .ok tree) : tree.IsHeaded := by
  obtain ⟨stream, unit, hStream, hUnit, hTree⟩ := exists_unit_of_ofSource h
  exact Parser.isHeaded_of_compilationUnit hUnit hTree (TokenStream.follow_spans hStream)
    (by simp [TokenStream.lexemes])

end StateGuard
