import StateGuard.Proofs.Syntax.Expressions
import StateGuard.Guard.Branching
import StateGuard.Semantics.Location
import StateGuard.Syntax.Render

/-!
# Corresponding trees

Two trees may be the same but for the bodies of some methods, and then their nodes have different
numbers.  An embedding takes the nodes of one tree that lie outside of what differs to their
counterparts in the other.  Whatever looks at a node and what is above it, or within an expression,
finds the same in both trees.

## Main results

* `Embedding.ancestors_map`, `Embedding.isWithin_map`: going up.
* `Embedding.stripParens_map`, `Embedding.render_map`: going down into an expression.
* `Embedding.filter_preorder`: the counterparts follow each other in the same order.
-/

namespace StateGuard

namespace Node

variable {ι κ : Type} (f : ι → κ)

/-! ## Replacing references, construct by construct -/

@[simp]
theorem map_parameter (name : String) (type : Option TypeRef) :
    (Node.parameter name type : Node ι).map f = .parameter name type := rfl

@[simp]
theorem map_expressionStatement (expr : ι) :
    (Node.expressionStatement expr).map f = .expressionStatement (f expr) := rfl

@[simp]
theorem map_identifier (name : String) :
    (Node.identifier name : Node ι).map f = .identifier name := rfl

@[simp]
theorem map_this : (Node.this : Node ι).map f = .this := rfl

@[simp]
theorem map_literal (value : Literal) : (Node.literal value : Node ι).map f = .literal value := rfl

@[simp]
theorem map_memberAccess (receiver : ι) (member : String) :
    (Node.memberAccess receiver member).map f = .memberAccess (f receiver) member := rfl

@[simp]
theorem map_conditionalAccess (receiver rest : ι) :
    (Node.conditionalAccess receiver rest).map f = .conditionalAccess (f receiver) (f rest) := rfl

@[simp]
theorem map_memberBinding (member : String) :
    (Node.memberBinding member : Node ι).map f = .memberBinding member := rfl

@[simp]
theorem map_outVariable (name : String) (type : Option TypeRef) :
    (Node.outVariable name type : Node ι).map f = .outVariable name type := rfl

@[simp]
theorem map_unary (op : UnaryOp) (operand : ι) :
    (Node.unary op operand).map f = .unary op (f operand) := rfl

@[simp]
theorem map_binary (op : BinaryOp) (left right : ι) :
    (Node.binary op left right).map f = .binary op (f left) (f right) := rfl

@[simp]
theorem map_isPattern (operand : ι) (pattern : Pattern) :
    (Node.isPattern operand pattern).map f = .isPattern (f operand) pattern := rfl

@[simp]
theorem map_conditional (condition whenTrue whenFalse : ι) :
    (Node.conditional condition whenTrue whenFalse).map f =
      .conditional (f condition) (f whenTrue) (f whenFalse) := rfl

@[simp]
theorem map_await (operand : ι) : (Node.await operand).map f = .await (f operand) := rfl

@[simp]
theorem map_parenthesized (inner : ι) :
    (Node.parenthesized inner).map f = .parenthesized (f inner) := rfl

@[simp]
theorem map_localDeclaration (name : String) (type : Option TypeRef) (init : Option ι) :
    (Node.localDeclaration name type init).map f = .localDeclaration name type (init.map f) := by
  cases init <;> rfl

@[simp]
theorem map_returnStatement (value : Option ι) :
    (Node.returnStatement value).map f = .returnStatement (value.map f) := by
  cases value <;> rfl

@[simp]
theorem map_ifStatement (condition thenBranch : ι) (elseBranch : Option ι) :
    (Node.ifStatement condition thenBranch elseBranch).map f =
      .ifStatement (f condition) (f thenBranch) (elseBranch.map f) := by
  cases elseBranch <;> rfl

/-! ## Texts of expressions -/

/-- The text of a node, given the texts of its parts and the names of its parameters. -/
def rendered (render : ι → String) (name? : ι → Option String) : Node ι → String
  | .identifier name => name
  | .this => "this"
  | .literal value => value.render
  | .memberAccess receiver member => render receiver ++ "." ++ member
  | .conditionalAccess receiver rest => render receiver ++ "?" ++ render rest
  | .memberBinding member => "." ++ member
  | .invocation callee args =>
    render callee ++ "(" ++
      String.intercalate ", " (args.map fun arg =>
        (match arg.name with
          | some name => name ++ ": "
          | none => "") ++ render arg.value) ++ ")"
  | .outVariable name type =>
    "out " ++ (match type with
      | some type => type.shortDisplay
      | none => "var") ++ " " ++ name
  | .unary op operand => op.symbol ++ render operand
  | .binary op left right => render left ++ " " ++ op.symbol ++ " " ++ render right
  | .isPattern operand pattern => render operand ++ pattern.render
  | .conditional condition whenTrue whenFalse =>
    render condition ++ " ? " ++ render whenTrue ++ " : " ++ render whenFalse
  | .lambda params body isAsync =>
    (if isAsync then "async " else "") ++
      renderParameters (params.filterMap name?) ++ " => " ++ render body
  | .await operand => "await " ++ render operand
  | .parenthesized inner => "(" ++ render inner ++ ")"
  | .parameter name _ => name
  | _ => ellipsis

theorem rendered_map (render : κ → String) (name? : κ → Option String) (node : Node ι) :
    (node.map f).rendered render name? = node.rendered (render ∘ f) (name? ∘ f) := by
  cases node with
  | invocation callee args => simp [rendered, Argument.map, Function.comp_def]
  | lambda params body isAsync => simp [rendered, List.filterMap_map]
  | _ => simp [rendered]

theorem rendered_congr {render render' : ι → String} {name? name?' : ι → Option String} {node : Node ι}
    (hText : ∀ c ∈ node.children, render c = render' c)
    (hName : ∀ c ∈ node.children, name? c = name?' c) :
    node.rendered render name? = node.rendered render' name?' := by
  cases node with
  | invocation callee args =>
      have hArgs : ∀ arg ∈ args, render arg.value = render' arg.value := fun arg hArg =>
        hText _ (List.mem_cons_of_mem _ (List.mem_map_of_mem hArg))
      simp only [rendered, hText callee List.mem_cons_self]
      rw [List.map_congr_left fun arg hArg => by rw [hArgs arg hArg]]
  | lambda params body isAsync =>
      have hParams : ∀ p ∈ params, name? p = name?' p := fun p hp =>
        hName p (List.mem_append_left _ hp)
      simp only [rendered, hText body (by simp [children]), List.filterMap_congr hParams]
  | _ => simp_all [rendered, children]

end Node

/-- The kinds of nodes that stand inside members. -/
def NodeKind.isInner : NodeKind → Bool
  | .compilationUnit => false
  | .method => false
  | _ => true

namespace Arena

/-- A correspondence between two trees that may differ in the bodies of methods. -/
structure Embedding (A B : Arena) where
  /-- The counterpart of a node. -/
  map : A.Id → B.Id
  /-- The nodes outside of what differs. -/
  kept : A.Id → Bool
  /-- The nodes of the other tree outside of what differs. -/
  image : B.Id → Bool
  map_root : map A.root = B.root
  kept_root : kept A.root = true
  image_map : ∀ {i}, kept i = true → image (map i) = true
  injective : ∀ {i j}, kept i = true → kept j = true → map i = map j → i = j
  node_map : ∀ {i}, kept i = true → B.node (map i) = (A.node i).map map
  parent_map : ∀ {i}, kept i = true → B.parent (map i) = (A.parent i).map map
  kept_parent : ∀ {c p}, kept c = true → A.parent c = some p → kept p = true
  image_parent : ∀ {c p}, image c = true → B.parent c = some p → image p = true
  /-- What is left out is the body of a method. -/
  kept_part : ∀ {p c}, kept p = true → c ∈ (A.node p).children → kept c = true ∨
    image (map c) = false ∧ ∃ name returnType params isAsync,
      A.node p = .method name returnType params c isAsync
  /-- Inside a member nothing is left out. -/
  kept_within : ∀ {i j}, kept i = true → (A.node i).kind.isInner = true →
    A.isWithin j i = true → kept j = true

namespace Embedding

/-- Every node corresponds to itself. -/
def refl (A : Arena) : Embedding A A where
  map := id
  kept _ := true
  image _ := true
  map_root := rfl
  kept_root := rfl
  image_map _ := rfl
  injective _ _ h := h
  node_map _ := (Node.mapChildren_self _).symm
  parent_map _ := by simp
  kept_parent _ _ := rfl
  image_parent _ _ := rfl
  kept_part _ _ := .inl rfl
  kept_within _ _ _ := rfl

variable {A B : Arena} (e : Embedding A B) {i j : A.Id}

/-! ## Going up -/

theorem kept_of_isWithin {top : A.Id} (hi : e.kept i = true) (h : A.isWithin i top = true) :
    e.kept top = true := by
  induction i using induction_parent with
  | step i ih =>
      rcases isWithin_iff.1 h with rfl | ⟨p, hParent, hAbove⟩
      · exact hi
      · exact ih p hParent (e.kept_parent hi hParent) hAbove

theorem image_of_isWithin {k top : B.Id} (hk : e.image k = true)
    (h : B.isWithin k top = true) : e.image top = true := by
  induction k using induction_parent with
  | step k ih =>
      rcases isWithin_iff.1 h with rfl | ⟨p, hParent, hAbove⟩
      · exact hk
      · exact ih p hParent (e.image_parent hk hParent) hAbove

theorem kept_of_mem_ancestors {a : A.Id} (hi : e.kept i = true) (ha : a ∈ A.ancestors i) :
    e.kept a = true :=
  e.kept_of_isWithin hi (mem_ancestors_iff.1 ha).2

theorem ancestors_map (hi : e.kept i = true) :
    B.ancestors (e.map i) = (A.ancestors i).map e.map := by
  induction i using induction_parent with
  | step i ih =>
      have hMap := e.parent_map hi
      cases hParent : A.parent i with
      | none =>
          rw [hParent] at hMap
          rw [ancestors_of_parent_none hMap, ancestors_of_parent_none hParent, List.map_nil]
      | some p =>
          rw [hParent] at hMap
          rw [ancestors_of_parent hMap, ancestors_of_parent hParent, List.map_cons,
            ih p hParent (e.kept_parent hi hParent)]

theorem map_eq_iff (hi : e.kept i = true) (hj : e.kept j = true) : e.map i = e.map j ↔ i = j :=
  ⟨e.injective hi hj, congrArg e.map⟩

theorem isWithin_map {top : A.Id} (hi : e.kept i = true) (hTop : e.kept top = true) :
    B.isWithin (e.map i) (e.map top) = A.isWithin i top := by
  rw [Bool.eq_iff_iff]
  induction i using induction_parent with
  | step i ih =>
      rw [isWithin_iff, isWithin_iff, e.parent_map hi, e.map_eq_iff hi hTop]
      cases hParent : A.parent i with
      | none => simp
      | some p => simpa using or_congr_right (ih p hParent (e.kept_parent hi hParent))

/-! ## Going down -/

/-- Everything within a node has a counterpart. -/
def Whole (i : A.Id) : Prop := ∀ j, A.isWithin j i = true → e.kept j = true

variable {e}

theorem whole_of_kept (hi : e.kept i = true) (hInner : (A.node i).kind.isInner = true) :
    e.Whole i := fun _ h => e.kept_within hi hInner h

theorem Whole.kept (h : e.Whole i) : e.kept i = true := h i (isWithin_self i)

theorem Whole.of_isWithin (h : e.Whole i) (hj : A.isWithin j i = true) : e.Whole j :=
  fun k hk => h k (isWithin_trans hk hj)

theorem Whole.part {c : A.Id} (h : e.Whole i) (hc : c ∈ (A.node i).children) : e.Whole c :=
  h.of_isWithin (isWithin_of_mem_children hc)

theorem Whole.stripParens (h : e.Whole i) : e.Whole (A.stripParens i) :=
  h.of_isWithin (isWithin_stripParens i)

theorem Whole.node (h : e.Whole i) : B.node (e.map i) = (A.node i).map e.map :=
  e.node_map h.kept

theorem stripParens_map (h : e.Whole i) :
    B.stripParens (e.map i) = e.map (A.stripParens i) := by
  fun_induction A.stripParens i with
  | case1 i inner hNode ih =>
      have hMap := h.node
      rw [hNode, Node.map_parenthesized] at hMap
      rw [Arena.stripParens, hMap]
      exact ih (h.part (by simp [hNode, Node.children]))
  | case2 i hOther =>
      rw [Arena.stripParens, h.node]
      cases hNode : A.node i with
      | parenthesized inner => exact absurd hNode (hOther inner)
      | _ => simp

theorem node_stripParens_map (h : e.Whole i) :
    B.node (B.stripParens (e.map i)) = (A.node (A.stripParens i)).map e.map := by
  rw [stripParens_map h, h.stripParens.node]

theorem isThis_map (h : e.Whole i) : B.isThis (e.map i) = A.isThis i := by
  unfold isThis
  rw [node_stripParens_map h]
  cases A.node (A.stripParens i) <;> simp

theorem condition_map (hi : e.kept i = true) :
    B.condition? (e.map i) = (A.condition? i).map e.map := by
  unfold condition?
  rw [e.node_map hi]
  cases A.node i with
  | binary op left right => cases op <;> simp
  | _ => simp

theorem branch_map (hi : e.kept i = true) (branch : Branch) :
    B.branch? (e.map i) branch = (A.branch? i branch).map e.map := by
  unfold branch?
  rw [e.node_map hi]
  cases branch with
  | whenTrue =>
      cases A.node i with
      | binary op left right => cases op <;> simp
      | _ => simp
  | whenFalse =>
      cases A.node i with
      | binary op left right => cases op <;> simp
      | _ => simp

/-- The conditions and branches of a construct are parts of it. -/
theorem mem_children_of_condition {c : A.Id} (h : A.condition? i = some c) :
    c ∈ (A.node i).children ∧ (A.node i).kind.isInner = true := by
  unfold condition? at h
  split at h
  all_goals grind [Node.children, Node.kind, NodeKind.isInner]

theorem mem_children_of_branch {c : A.Id} {branch : Branch} (h : A.branch? i branch = some c) :
    c ∈ (A.node i).children ∧ (A.node i).kind.isInner = true := by
  unfold branch? at h
  cases branch with
  | whenTrue =>
      dsimp only at h
      split at h
      all_goals grind [Node.children, Node.kind, NodeKind.isInner]
  | whenFalse =>
      dsimp only at h
      split at h
      all_goals grind [Node.children, Node.kind, NodeKind.isInner]

theorem isUnder_map {construct : A.Id} (hi : e.kept i = true) (hConstruct : e.kept construct = true)
    (branch : Branch) :
    B.isUnder (e.map i) (e.map construct) branch = A.isUnder i construct branch := by
  unfold isUnder
  rw [branch_map hConstruct]
  cases hBranch : A.branch? construct branch with
  | none => rfl
  | some part =>
      obtain ⟨hPart, hInner⟩ := mem_children_of_branch hBranch
      exact e.isWithin_map hi ((whole_of_kept hConstruct hInner).part hPart).kept

end Embedding

theorem render_eq_rendered (arena : Arena) (i : arena.Id) :
    arena.render i = (arena.node i).rendered arena.render arena.parameterName? := by
  rw [render]
  split
  case h_7 callee args hNode =>
    have hTexts := @List.attach_map_val _ _ args fun arg =>
      (match arg.name with
        | some name => name ++ ": "
        | none => "") ++ arena.render arg.value
    rw [hNode]
    exact congrArg (arena.render callee ++ "(" ++ String.intercalate ", " · ++ ")") hTexts
  case h_8 name type hNode =>
    cases type <;> simp only [hNode, Node.rendered]
  all_goals simp_all [Node.rendered]

namespace Embedding

variable {A B : Arena} {e : Embedding A B} {i j : A.Id}

theorem parameterName_map (hi : e.kept i = true) :
    B.parameterName? (e.map i) = A.parameterName? i := by
  unfold parameterName?
  rw [e.node_map hi]
  cases A.node i <;> simp

/-- **An expression and its counterpart have the same text.** -/
theorem render_map (h : e.Whole i) : B.render (e.map i) = A.render i := by
  induction i using induction_parts with
  | step i ih =>
      rw [render_eq_rendered, render_eq_rendered, h.node, Node.rendered_map]
      apply Node.rendered_congr
      · intro c hc
        exact ih c hc (h.part hc)
      · intro c hc
        exact parameterName_map (h.part hc).kept

/-! ## Source order -/

/-- What is within a body that differs has no counterpart. -/
theorem not_kept_within {c : A.Id} (hc : e.kept c = false) (hj : A.isWithin j c = true) :
    e.kept j = false := by
  by_contra h
  have hKept := e.kept_of_isWithin (Bool.eq_true_of_not_eq_false h) hj
  simp [hc] at hKept

theorem not_image_within {c k : B.Id} (hc : e.image c = false) (hk : B.isWithin k c = true) :
    e.image k = false := by
  by_contra h
  have hImage := e.image_of_isWithin (Bool.eq_true_of_not_eq_false h) hk
  simp [hc] at hImage

theorem filter_subtree (hi : e.kept i = true) :
    (B.subtree (e.map i)).filter e.image = ((A.subtree i).filter e.kept).map e.map := by
  induction i using induction_parts with
  | step i ih =>
      rw [subtree_eq, subtree_eq, List.filter_cons_of_pos (e.image_map hi),
        List.filter_cons_of_pos hi, List.map_cons, e.node_map hi, Node.children_map,
        List.flatMap_map, List.filter_flatMap, List.filter_flatMap, List.map_flatMap]
      congr 1
      apply List.flatMap_congr
      intro c hc
      cases hKept : e.kept c with
      | true => exact ih c hc hKept
      | false =>
          -- a body that differs contributes nothing on either side
          have hImage : e.image (e.map c) = false := by
            rcases e.kept_part hi hc with hc' | ⟨hImage, -⟩
            · simp [hKept] at hc'
            · exact hImage
          have hLeft : (B.subtree (e.map c)).filter e.image = [] := by
            rw [List.filter_eq_nil_iff]
            intro k hk
            simp [not_image_within hImage (mem_subtree_iff.1 hk)]
          have hRight : (A.subtree c).filter e.kept = [] := by
            rw [List.filter_eq_nil_iff]
            intro j hj
            simp [not_kept_within hKept (mem_subtree_iff.1 hj)]
          rw [hLeft, hRight, List.map_nil]

/-- **The counterparts follow each other in the same order.** -/
theorem filter_preorder (e : Embedding A B) :
    B.preorder.filter e.image = (A.preorder.filter e.kept).map e.map := by
  rw [preorder, ← e.map_root]
  exact filter_subtree e.kept_root

end Embedding

end Arena

end StateGuard
