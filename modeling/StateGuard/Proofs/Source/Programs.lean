import StateGuard.Proofs.Syntax.Layout
import StateGuard.Proofs.Syntax.Sorts
import StateGuard.Source.Program

/-!
# Texts are read as programs

Whatever the parser reads is sorted: parameters stand at the head of methods and lambdas, methods and
fields are the members of the unit, and statements and expressions stand everywhere else.  `Yields`
says what the value of a successful attempt is like; each parser is proved from those it calls, along
its own recursion.

## Main results

* `Parser.yields_expression`, `Parser.yields_statement`: parsers of phrases read phrases.
* `Parser.isSorted_compilationUnit`: a text is read as a unit of sorted members.
* `Tree.isProgram_ofSource`: the tree of a text is a program.
-/

namespace StateGuard

theorem Node.isSorted_of_phrases {ι : Type} {kind : ι → NodeKind} {node : Node ι}
    (hKind : node.kind.isPhrase = true) (hParams : node.params = [])
    (h : ∀ c ∈ node.children, (kind c).isPhrase = true) : node.IsSorted kind := by
  cases node with
  | compilationUnit | method | parameter => simp [Node.kind, NodeKind.isPhrase] at hKind
  | lambda params body isAsync =>
      simp only [Node.params] at hParams
      subst hParams
      exact ⟨by simp, h body (by simp [children])⟩
  | _ => exact h

/-! ## Attempts -/

theorem exists_of_bind_eq_ok {ε α β : Type} {first : Except ε α} {next : α → Except ε β} {b : β}
    (h : first >>= next = .ok b) : ∃ a, first = .ok a ∧ next a = .ok b := by
  cases first with
  | error e => simp [Bind.bind, Except.bind] at h
  | ok a => exact ⟨a, rfl, h⟩

theorem eq_ok_of_mapError {ε ε' α : Type} {attempt : Except ε α} {f : ε → ε'} {a : α}
    (h : attempt.mapError f = .ok a) : attempt = .ok a := by
  cases attempt with
  | error e => simp [Except.mapError] at h
  | ok b => simpa [Except.mapError] using h

/-! ## Sorted terms -/

namespace Term

/-- Every term in a term has its parts where they may stand. -/
def IsSorted (t : Term) : Prop := ∀ s ∈ t.postorder, s.node.IsSorted fun c => c.node.kind

theorem isSorted_iff {t : Term} : t.IsSorted ↔
    (∀ c ∈ t.node.children, c.IsSorted) ∧ t.node.IsSorted fun c => c.node.kind := by
  unfold IsSorted
  rw [postorder_eq]
  simp only [List.mem_append, List.mem_flatMap, List.mem_singleton]
  constructor
  · intro h
    exact ⟨fun c hc s hs => h s (.inl ⟨c, hc, hs⟩), h t (.inr rfl)⟩
  · rintro ⟨hParts, hSelf⟩ s (⟨c, hc, hs⟩ | rfl)
    · exact hParts c hc s hs
    · exact hSelf

/-- A sorted statement or expression. -/
structure IsPhrase (t : Term) : Prop where
  sorted : t.IsSorted
  kind : t.node.kind.isPhrase = true

/-- A sorted parameter. -/
structure IsParameter (t : Term) : Prop where
  sorted : t.IsSorted
  kind : t.node.kind = .parameter

/-- A sorted method or field. -/
structure IsMember (t : Term) : Prop where
  sorted : t.IsSorted
  kind : t.node.kind = .method ∨ t.node.kind = .localDeclaration

end Term

namespace Parser

open Term

section Terms

variable {before : Nat} {rest : List Lexeme}

/-- A node over phrases is a phrase. -/
theorem isPhrase_spanning {node : Node Term} (hKind : node.kind.isPhrase = true)
    (hParams : node.params = []) (hParts : ∀ c ∈ node.children, c.IsPhrase) :
    (spanning before node rest).IsPhrase where
  sorted := isSorted_iff.2 ⟨fun c hc => (hParts c hc).sorted,
    Node.isSorted_of_phrases hKind hParams fun c hc => (hParts c hc).kind⟩
  kind := hKind

theorem isParameter_spanning (name : String) (type : Option TypeRef) :
    (spanning before (.parameter name type) rest).IsParameter where
  sorted := isSorted_iff.2 ⟨fun _ hc => absurd hc List.not_mem_nil,
    fun _ hc => absurd hc List.not_mem_nil⟩
  kind := rfl

/-- A node with parameters and a body is sorted. -/
theorem isSorted_body {node : Node Term} {params : List Term} {body : Term}
    (hChildren : node.children = params ++ [body])
    (hSorted : ((∀ c ∈ params, c.node.kind = .parameter) ∧ body.node.kind.isPhrase = true) →
      node.IsSorted fun c => c.node.kind)
    (hParams : ∀ p ∈ params, p.IsParameter) (hBody : body.IsPhrase) :
    (spanning before node rest).IsSorted := by
  refine isSorted_iff.2 ⟨?_, hSorted ⟨fun p hp => (hParams p hp).kind, hBody.kind⟩⟩
  intro c hc
  rcases List.mem_append.1 (hChildren ▸ hc) with hParam | hLast
  · exact (hParams c hParam).sorted
  · exact List.mem_singleton.1 hLast ▸ hBody.sorted

end Terms

/-! ## What an attempt yields -/

section Yields

variable {m n : Nat} {α β : Type} {P : α → Prop} {Q : β → Prop}

/-- A successful attempt has a value with a property. -/
def Yields (attempt : Attempt (Parsed n α)) (P : α → Prop) : Prop :=
  ∀ r, attempt = .ok r → P r.value

theorem Yields.bind {first : Attempt (Parsed m α)} {next : Parsed m α → Attempt (Parsed n β)}
    (hFirst : Yields first P)
    (hNext : ∀ value rest fits, P value → Yields (next ⟨value, rest, fits⟩) Q) :
    Yields (first >>= next) Q := by
  intro r h
  obtain ⟨s, hs, hr⟩ := exists_of_bind_eq_ok h
  exact hNext s.value s.rest s.fits (hFirst s hs) r hr

/-- An attempt whose value does not matter. -/
theorem Yields.after {first : Attempt (Parsed m α)} {next : Parsed m α → Attempt (Parsed n β)}
    (hNext : ∀ value rest fits, Yields (next ⟨value, rest, fits⟩) Q) : Yields (first >>= next) Q :=
  Yields.bind (P := fun _ => True) (fun _ _ => trivial) fun value rest fits _ =>
    hNext value rest fits

theorem Yields.ok {r : Parsed n α} (h : P r.value) : Yields (.ok r) P := by
  intro s hs
  obtain rfl := Except.ok.inj hs
  exact h

theorem Yields.error (e : ParseError) : Yields (.error e : Attempt (Parsed n α)) P := by
  intro r h
  simp at h

end Yields

/-! ## Parameters -/

variable (resolve : String → String)

theorem yields_parameters (ts : List Lexeme) :
    Yields (parameters resolve ts) (∀ p ∈ ·, p.IsParameter) := by
  rw [parameters.eq_def]
  refine Yields.after fun type rest _ => Yields.after fun name rest _ => ?_
  dsimp only
  split
  · refine (yields_parameters _).bind fun params rest _ hParams => Yields.ok ?_
    exact List.forall_mem_cons.2 ⟨isParameter_spanning .., hParams⟩
  · refine Yields.after fun _ rest _ => Yields.ok ?_
    exact List.forall_mem_singleton.2 (isParameter_spanning ..)
termination_by ts.length
decreasing_by grind

theorem yields_lambdaParameters (ts : List Lexeme) :
    Yields (lambdaParameters resolve ts) (∀ p ∈ ·, p.IsParameter) := by
  rw [lambdaParameters.eq_def]
  split
  · exact Yields.ok (by simp)
  · refine Yields.after fun type rest _ => Yields.after fun name rest _ => ?_
    dsimp only
    split
    · refine (yields_lambdaParameters _).bind fun params rest _ hParams => Yields.ok ?_
      exact List.forall_mem_cons.2 ⟨isParameter_spanning .., hParams⟩
    · refine Yields.after fun _ rest _ => Yields.ok ?_
      exact List.forall_mem_singleton.2 (isParameter_spanning ..)
termination_by ts.length
decreasing_by grind

theorem yields_lambdaHead (ts : List Lexeme) :
    Yields (lambdaHead resolve ts) (∀ p ∈ ·, p.IsParameter) := by
  unfold lambdaHead
  split
  · exact (yields_lambdaParameters resolve _).bind fun params rest _ hParams => Yields.ok hParams
  · refine Yields.after fun name rest _ => Yields.ok ?_
    exact List.forall_mem_singleton.2 (isParameter_spanning ..)

theorem yields_parameterList (ts : List Lexeme) :
    Yields (parameterList resolve ts) (∀ p ∈ ·, p.IsParameter) := by
  unfold parameterList
  split
  · exact Yields.ok (by simp)
  · exact yields_parameters resolve _

/-! ## Statements and expressions -/

theorem yields_outVariable (ts : List Lexeme) : Yields (outVariable resolve ts) IsPhrase := by
  have hPhrase : ∀ before name type rest,
      (spanning before (.outVariable name type) rest).IsPhrase := fun _ _ _ _ =>
    isPhrase_spanning rfl rfl fun _ hc => absurd hc List.not_mem_nil
  unfold outVariable
  dsimp only
  split
  · exact Yields.after fun name rest _ => Yields.ok (hPhrase ..)
  · exact Yields.after fun type rest _ => Yields.after fun name rest _ =>
      Yields.ok (hPhrase ..)

theorem isPhrase_atom {t : Lexeme} {node : Node Term} (h : atom t = .ok node) (before : Nat)
    (rest : List Lexeme) : (spanning before node rest).IsPhrase := by
  have hNode : node.kind.isPhrase = true ∧ node.params = [] ∧ node.children = [] := by
    unfold atom at h
    split at h
    all_goals first
      | obtain rfl := Except.ok.inj h
        exact ⟨rfl, rfl, rfl⟩
      | skip
    · split at h
      · simp at h
      · obtain rfl := Except.ok.inj h
        exact ⟨rfl, rfl, rfl⟩
    · simp at h
  exact isPhrase_spanning hNode.1 hNode.2.1 fun c hc => by simp [hNode.2.2] at hc

mutual
theorem yields_statements (ts : List Lexeme) :
    Yields (statements resolve ts) (∀ t ∈ ·, t.IsPhrase) := by
  rw [statements.eq_def]
  split
  · exact Yields.error _
  · exact Yields.ok (by simp)
  · refine (yields_statement _).bind fun first rest _ hFirst => ?_
    refine (yields_statements _).bind fun others rest _ hOthers => Yields.ok ?_
    exact List.forall_mem_cons.2 ⟨hFirst, hOthers⟩
termination_by 32 * ts.length + 16
decreasing_by all_goals omega

theorem yields_block (ts : List Lexeme) : Yields (block resolve ts) IsPhrase := by
  rw [block.eq_def]
  refine Yields.after fun _ rest _ => ?_
  refine (yields_statements _).bind fun body rest _ hBody => Yields.ok ?_
  exact isPhrase_spanning rfl rfl hBody
termination_by 32 * ts.length + 14
decreasing_by all_goals omega

theorem yields_statement (ts : List Lexeme) : Yields (statement resolve ts) IsPhrase := by
  rw [statement.eq_def]
  split
  · exact yields_block _
  · refine Yields.after fun _ rest _ => ?_
    refine (yields_expression _).bind fun condition rest _ hCondition => ?_
    refine Yields.after fun _ rest _ => ?_
    refine (yields_statement _).bind fun thenBranch rest _ hThen => ?_
    dsimp only
    split
    · refine (yields_statement _).bind fun elseBranch rest _ hElse => Yields.ok ?_
      exact isPhrase_spanning rfl rfl (by simp [Node.children, hCondition, hThen, hElse])
    · exact Yields.ok (isPhrase_spanning rfl rfl (by simp [Node.children, hCondition, hThen]))
  · exact Yields.ok (isPhrase_spanning rfl rfl (by simp [Node.children]))
  · refine (yields_expression _).bind fun value rest _ hValue => ?_
    refine Yields.after fun _ rest _ => Yields.ok ?_
    exact isPhrase_spanning rfl rfl (by simp [Node.children, hValue])
  · dsimp only
    split
    · exact Yields.error _
    · refine (yields_expression _).bind fun init rest _ hInit => ?_
      refine Yields.after fun _ rest _ => Yields.ok ?_
      exact isPhrase_spanning rfl rfl (by simp [Node.children, hInit])
  · split
    · split
      · refine (yields_expression _).bind fun init rest _ hInit => ?_
        refine Yields.after fun _ rest _ => Yields.ok ?_
        exact isPhrase_spanning rfl rfl (by simp [Node.children, hInit])
      · refine Yields.after fun _ rest _ => Yields.ok ?_
        exact isPhrase_spanning rfl rfl (by simp [Node.children])
    · refine (yields_expression _).bind fun expr rest _ hExpr => ?_
      refine Yields.after fun _ rest _ => Yields.ok ?_
      exact isPhrase_spanning rfl rfl (by simp [Node.children, hExpr])
termination_by 32 * ts.length + 15
decreasing_by
  all_goals first
    | omega
    | (subst_vars; simp only [List.length_cons]; omega)

theorem yields_expression (ts : List Lexeme) : Yields (expression resolve ts) IsPhrase := by
  rw [expression.eq_def]
  split
  · exact yields_lambda ts
  · exact yields_conditional ts
termination_by 32 * ts.length + 13
decreasing_by all_goals omega

theorem yields_lambda (ts : List Lexeme) : Yields (lambda resolve ts) IsPhrase := by
  have hLambda : ∀ before params body isAsync rest, (∀ p ∈ params, p.IsParameter) →
      body.IsPhrase → (spanning before (.lambda params body isAsync) rest).IsPhrase :=
    fun _ _ _ _ _ hParams hBody => ⟨isSorted_body rfl id hParams hBody, rfl⟩
  rw [lambda.eq_def]
  rcases skipAsync ts with ⟨isAsync, rest, _⟩
  refine (yields_lambdaHead resolve _).bind fun params rest _ hParams => ?_
  refine Yields.after fun _ rest _ => ?_
  dsimp only
  split
  · exact (yields_block _).bind fun body rest _ hBody =>
      Yields.ok (hLambda _ _ _ _ _ hParams hBody)
  · exact (yields_expression _).bind fun body rest _ hBody =>
      Yields.ok (hLambda _ _ _ _ _ hParams hBody)
termination_by 32 * ts.length + 12
decreasing_by all_goals omega

theorem yields_conditional (ts : List Lexeme) : Yields (conditional resolve ts) IsPhrase := by
  rw [conditional.eq_def]
  refine (yields_operation 0 _).bind fun condition rest _ hCondition => ?_
  dsimp only
  split
  · refine (yields_expression _).bind fun whenTrue rest _ hTrue => ?_
    dsimp only
    refine Yields.after fun _ rest _ => ?_
    refine (yields_expression _).bind fun whenFalse rest _ hFalse => Yields.ok ?_
    exact isPhrase_spanning rfl rfl (by simp [Node.children, hCondition, hTrue, hFalse])
  · exact Yields.ok hCondition
termination_by 32 * ts.length + 11
decreasing_by
  all_goals first
    | omega
    | (unfold levels; omega)

theorem yields_operation (level : Nat) (ts : List Lexeme) :
    Yields (operation resolve level ts) IsPhrase := by
  rw [operation.eq_def]
  split
  · refine (yields_operation (level + 1) _).bind fun left rest _ hLeft => ?_
    refine (yields_operationTail level _ hLeft _).bind fun whole rest _ hWhole => ?_
    exact Yields.ok hWhole
  · exact yields_unary ts
termination_by 32 * ts.length + 4 + (levels - level)
decreasing_by all_goals omega

theorem yields_operationTail (level before : Nat) {left : Term} (hLeft : left.IsPhrase)
    (ts : List Lexeme) : Yields (operationTail resolve level before left ts) IsPhrase := by
  rw [operationTail.eq_def]
  split
  · exact Yields.ok hLeft
  · split
    · next op _ =>
        refine (yields_operation (level + 1) _).bind fun right rest _ hRight => ?_
        have hWhole : (spanning before (.binary op left right) rest).IsPhrase :=
          isPhrase_spanning rfl rfl (by simp [Node.children, hLeft, hRight])
        exact (yields_operationTail level before hWhole _).bind fun whole rest _ h =>
          Yields.ok h
    · split
      · refine Yields.after fun test rest _ => ?_
        have hWhole : (spanning before (.isPattern left test) rest).IsPhrase :=
          isPhrase_spanning rfl rfl (by simp [Node.children, hLeft])
        exact (yields_operationTail level before hWhole _).bind fun whole rest _ h =>
          Yields.ok h
      · exact Yields.ok hLeft
termination_by 32 * ts.length
decreasing_by
  all_goals first
    | omega
    | (subst_vars; simp only [List.length_cons, levels]; omega)

theorem yields_unary (ts : List Lexeme) : Yields (unary resolve ts) IsPhrase := by
  rw [unary.eq_def]
  split
  · refine (yields_unary _).bind fun operand rest _ hOperand => Yields.ok ?_
    exact isPhrase_spanning rfl rfl (by simp [Node.children, hOperand])
  · refine (yields_unary _).bind fun operand rest _ hOperand => Yields.ok ?_
    exact isPhrase_spanning rfl rfl (by simp [Node.children, hOperand])
  · refine (yields_unary _).bind fun operand rest _ hOperand => Yields.ok ?_
    exact isPhrase_spanning rfl rfl (by simp [Node.children, hOperand])
  · refine (yields_primary _).bind fun head rest _ hHead => ?_
    exact (yields_chain _ hHead _).bind fun whole rest _ hWhole => Yields.ok hWhole
termination_by 32 * ts.length + 3
decreasing_by
  all_goals first
    | omega
    | (subst_vars; simp only [List.length_cons]; omega)

theorem yields_chain (before : Nat) {head : Term} (hHead : head.IsPhrase) (ts : List Lexeme) :
    Yields (chain resolve before head ts) IsPhrase := by
  rw [chain.eq_def]
  split
  · refine Yields.after fun member rest _ => ?_
    have hWhole : (spanning before (.memberAccess head member) rest).IsPhrase :=
      isPhrase_spanning rfl rfl (by simp [Node.children, hHead])
    exact (yields_chain before hWhole _).bind fun whole rest _ h => Yields.ok h
  · refine (yields_arguments _).bind fun args rest _ hArgs => ?_
    have hWhole : (spanning before (.invocation head args) rest).IsPhrase :=
      isPhrase_spanning rfl rfl (List.forall_mem_cons.2 ⟨hHead, List.forall_mem_map.2 hArgs⟩)
    exact (yields_chain before hWhole _).bind fun whole rest _ h => Yields.ok h
  · refine Yields.after fun member rest _ => ?_
    have hInner : ∀ binding : List Lexeme,
        (spanning binding.length (.memberBinding member) rest).IsPhrase := fun _ =>
      isPhrase_spanning rfl rfl (by simp [Node.children])
    refine (yields_chain _ (hInner _) _).bind fun inner rest _ h => Yields.ok ?_
    exact isPhrase_spanning rfl rfl (by simp [Node.children, hHead, h])
  · exact Yields.ok hHead
termination_by 32 * ts.length
decreasing_by
  all_goals first
    | omega
    | (subst_vars; simp only [List.length_cons]; omega)

theorem yields_arguments (ts : List Lexeme) :
    Yields (arguments resolve ts) (∀ a ∈ ·, a.value.IsPhrase) := by
  rw [arguments.eq_def]
  split
  · exact Yields.ok (by simp)
  · rcases argumentName _ with ⟨name, rest, _⟩
    refine (yields_argument _).bind fun value rest _ hValue => ?_
    dsimp only
    split
    · refine (yields_arguments _).bind fun args rest _ hArgs => Yields.ok ?_
      exact List.forall_mem_cons.2 ⟨hValue, hArgs⟩
    · refine Yields.after fun _ rest _ => Yields.ok ?_
      exact List.forall_mem_singleton.2 hValue
termination_by 32 * ts.length + 15
decreasing_by all_goals omega

theorem yields_argument (ts : List Lexeme) : Yields (argument resolve ts) IsPhrase := by
  rw [argument.eq_def]
  split
  · exact (yields_outVariable resolve _).bind fun target rest _ h => Yields.ok h
  · exact yields_expression _
termination_by 32 * ts.length + 14
decreasing_by all_goals omega

theorem yields_primary (ts : List Lexeme) : Yields (primary resolve ts) IsPhrase := by
  rw [primary.eq_def]
  split
  · exact Yields.error _
  · refine (yields_expression _).bind fun inner rest _ hInner => ?_
    refine Yields.after fun _ rest _ => Yields.ok ?_
    exact isPhrase_spanning rfl rfl (by simp [Node.children, hInner])
  · split
    · next hAtom => exact Yields.ok (isPhrase_atom hAtom ..)
    · exact Yields.error _
termination_by 32 * ts.length + 1
decreasing_by
  all_goals first
    | omega
    | (subst_vars; simp only [List.length_cons]; omega)
end

/-! ## Members -/

theorem yields_member (ts : List Lexeme) : Yields (member resolve ts) IsMember := by
  have hField : ∀ before name type init rest, (∀ c ∈ init, c.IsPhrase) →
      (spanning before (.localDeclaration name type init) rest).IsMember := by
    intro before name type init rest hInit
    have hPhrase : (spanning before (.localDeclaration name type init) rest).IsPhrase :=
      isPhrase_spanning rfl rfl fun c hc => hInit c (Option.mem_toList.1 hc)
    exact ⟨hPhrase.sorted, .inr rfl⟩
  unfold member
  rcases skipModifiers ts with ⟨_, rest, _⟩
  dsimp only
  rcases skipAsync rest with ⟨isAsync, rest, _⟩
  dsimp only
  rcases skipModifiers rest with ⟨_, rest, _⟩
  refine Yields.after fun type rest _ => Yields.after fun name rest _ => ?_
  dsimp only
  split
  · refine (yields_parameterList resolve _).bind fun params rest _ hParams => ?_
    refine (yields_block resolve _).bind fun body rest _ hBody => Yields.ok ?_
    exact ⟨isSorted_body rfl id hParams hBody, .inl rfl⟩
  · split
    · exact Yields.error _
    · split
      · refine (yields_expression resolve _).bind fun init rest _ hInit => ?_
        refine Yields.after fun _ rest _ => Yields.ok (hField _ _ _ _ _ ?_)
        rintro c ⟨⟩
        exact hInit
      · exact Yields.after fun _ rest _ => Yields.ok (hField _ _ _ _ _ (by simp))

theorem isMember_members (ts : List Lexeme) {all : List Term} (h : members resolve ts = .ok all) :
    ∀ t ∈ all, t.IsMember := by
  rw [members.eq_def] at h
  split at h
  · obtain rfl := Except.ok.inj h
    simp
  · obtain ⟨⟨first, rest, _⟩, hFirst, h⟩ := exists_of_bind_eq_ok h
    obtain ⟨others, hOthers, h⟩ := exists_of_bind_eq_ok h
    obtain rfl := Except.ok.inj h
    exact List.forall_mem_cons.2 ⟨yields_member resolve _ _ hFirst, isMember_members _ hOthers⟩
termination_by ts.length
decreasing_by grind

/-- **A text is read as a unit** of sorted members. -/
theorem isSorted_compilationUnit {ts : List Lexeme} {unit : Term}
    (h : compilationUnit resolve ts = .ok unit) :
    unit.IsSorted ∧ unit.node.kind = .compilationUnit := by
  obtain ⟨all, hAll, h⟩ := exists_of_bind_eq_ok h
  obtain rfl := Except.ok.inj h
  have hMembers := isMember_members resolve ts hAll
  refine ⟨isSorted_iff.2 ⟨?_, ?_⟩, rfl⟩
  · exact fun c hc => (hMembers c hc).sorted
  · exact fun c hc => (hMembers c hc).kind

end Parser

/-! ## Trees -/

namespace Node

variable {ι κ : Type}

theorem isSorted_map {kind : κ → NodeKind} {f : ι → κ} {node : Node ι} :
    (node.map f).IsSorted kind ↔ node.IsSorted fun c => kind (f c) := by
  cases node with
  | localDeclaration name type init => cases init <;> simp [map, mapChildren, IsSorted, children]
  | returnStatement value => cases value <;> simp [map, mapChildren, IsSorted, children]
  | ifStatement condition thenBranch elseBranch =>
      cases elseBranch <;> simp [map, mapChildren, IsSorted, children]
  | _ => simp [map, mapChildren, IsSorted, children]

theorem IsSorted.congr {kind other : ι → NodeKind} {node : Node ι} (h : node.IsSorted kind)
    (hKinds : ∀ c ∈ node.children, kind c = other c) : node.IsSorted other := by
  have hMap : node.map kind = node.map other := map_congr hKinds
  have hKind : (node.map kind).IsSorted id := isSorted_map.2 h
  rw [hMap] at hKind
  have hOther : node.IsSorted fun c => id (other c) := isSorted_map.1 hKind
  exact hOther

end Node

namespace Term.IsTree

variable {term : Term} {tree : Tree} (h : term.IsTree tree)
include h

theorem exists_term (i : tree.Id) :
    ∃ t ∈ term.postorder, term.postorder[i.val]? = some t ∧ (tree.node i).kind = t.node.kind := by
  have hi : i.val < term.postorder.length := h.size_eq ▸ i.isLt
  refine ⟨_, List.getElem_mem hi, List.getElem?_eq_getElem hi, ?_⟩
  simpa using congrArg Node.kind (h.node (List.getElem?_eq_getElem hi))

theorem kind_root : (tree.node tree.root).kind = term.node.kind := by
  simpa [h.subterm_root] using congrArg Node.kind (h.map_subterm_node tree.root)

/-- No node is left out of the tree: parents stand behind their parts, and the root stands last. -/
theorem isWithin_root (i : tree.Id) : tree.isWithin i tree.root = true := by
  induction hLeft : tree.size - i.val using Nat.strongRecOn generalizing i with
  | ind left ih =>
      by_cases hi : i = tree.root
      · exact hi ▸ Arena.isWithin_self i
      · obtain ⟨p, hParent⟩ := h.exists_parent hi
        have hLt : i.val < p.val := h.below ((tree.parent_eq_some_iff i p).1 hParent)
        exact Arena.isWithin_of_parent hParent (ih (tree.size - p.val) (by omega) p rfl)

/-- **The tree of a sorted unit is a program.** -/
theorem isProgram (hSorted : term.IsSorted) (hUnit : term.node.kind = .compilationUnit) :
    tree.IsProgram where
  root_kind := h.kind_root.trans hUnit
  connected := h.isWithin_root
  sorted i := by
    obtain ⟨t, hMem, ht, -⟩ := h.exists_term i
    let kind : Option Term → NodeKind := fun t? => (t?.map (·.node.kind)).getD .this
    have hTerm : (t.node.map some).IsSorted kind := Node.isSorted_map.2 (hSorted t hMem)
    rw [← h.node ht, Node.isSorted_map] at hTerm
    refine hTerm.congr fun c _ => ?_
    obtain ⟨u, -, hu, hKind⟩ := h.exists_term c
    rw [hu]
    exact hKind.symm

end Term.IsTree

/-- **The tree of a text is a program.** -/
theorem Tree.isProgram_ofSource {resolve : String → String} {file source : String} {tree : Tree}
    (h : Tree.ofSource resolve file source = .ok tree) : tree.IsProgram := by
  obtain ⟨stream, -, h⟩ := exists_of_bind_eq_ok h
  obtain ⟨unit, hUnit, h⟩ := exists_of_bind_eq_ok h
  obtain ⟨hSorted, hKind⟩ := Parser.isSorted_compilationUnit resolve (eq_ok_of_mapError hUnit)
  exact (Term.isTree_toTree (eq_ok_of_mapError h)).isProgram hSorted hKind

end StateGuard
