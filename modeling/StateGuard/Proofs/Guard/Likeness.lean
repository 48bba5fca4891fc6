import Mathlib.Data.List.Find
import StateGuard.Proofs.Guard.Exactness
import StateGuard.Proofs.Semantics.Transport

/-!
# Expressions that look alike

Two units look alike through a map of expressions when an expression and its image are the same construct
once parentheses are taken off, of the same types and with the same declarations.  Then everything that is
recognized in an expression is recognized in its image: the wrapper it evaluates to, the place it reads,
what it is as a condition.

## Main results

* `Likeness.wrapperFamily_map`: an expression and its image evaluate to the same wrapper.
* `Likeness.sameLocation_map`: two places are the same exactly if their images are.
* `Likeness.shape_map`, `Likeness.facts_map`: a condition and its image have the same shape and facts.
-/

namespace StateGuard

namespace Config.TypesLike

variable {c d : Config}

theorem refl (c : Config) : c.TypesLike c := ⟨rfl, rfl, rfl, rfl, rfl, rfl⟩

theorem classify (h : c.TypesLike d) : d.classify = c.classify := by
  funext type
  simp only [Config.classify, familyIndex?, h.isAsyncWrapper, h.families]

theorem role (h : c.TypesLike d) (family : Nat) (member : String) :
    d.role? family member = c.role? family member := by
  rw [role?, role?, h.families]

end Config.TypesLike

/-! ## Facts and shapes with other subjects -/

/-- The same fact about another subject. -/
def Fact.map {ι κ : Type} (f : ι → κ) (fact : Fact ι) : Fact κ :=
  ⟨fact.branch, f fact.subject, fact.predicate, fact.truth⟩

namespace Shape

variable {ι κ : Type} (f : ι → κ)

/-- The same form of condition about other subjects. -/
def map : Shape ι → Shape κ
  | .discriminant subject state => .discriminant (f subject) state
  | .negated subject state => .negated (f subject) state
  | .literal subject state expected => .literal (f subject) state expected
  | .tryAccessor subject state out => .tryAccessor (f subject) state (out.map f)
  | .conjunction left right => .conjunction left.map right.map
  | .disjunction left right => .disjunction left.map right.map
  | .unrecognized => .unrecognized

theorem negate_map (shape : Shape ι) : (shape.map f).negate = shape.negate.map f := by
  cases shape <;> rfl

theorem isRecognized_map (shape : Shape ι) : (shape.map f).isRecognized = shape.isRecognized := by
  cases shape <;> rfl

theorem compound_map {make : Shape ι → Shape ι → Shape ι} {make' : Shape κ → Shape κ → Shape κ}
    (h : ∀ left right, make' (left.map f) (right.map f) = (make left right).map f)
    (left right : Shape ι) :
    compound make' (left.map f) (right.map f) = (compound make left right).map f := by
  unfold compound
  rw [isRecognized_map, isRecognized_map, h]
  split
  · rfl
  · rfl

theorem subject?_map (shape : Shape ι) : (shape.map f).subject? = shape.subject?.map f := by
  cases shape <;> rfl

theorem facts_map (shape : Shape ι) : (shape.map f).facts = shape.facts.map (Fact.map f) := by
  induction shape with
  | conjunction left right ihLeft ihRight =>
      rw [map, facts, facts, ihLeft, ihRight, ← List.map_append, List.filter_map]
      rfl
  | disjunction left right ihLeft ihRight =>
      rw [map, facts, facts, ihLeft, ihRight, ← List.map_append, List.filter_map]
      rfl
  | _ => rfl

theorem Proves.map {shape : Shape ι} {b : Bool} {s : ι} {P : State} (h : shape.Proves b s P) :
    (shape.map f).Proves b (f s) P := by
  obtain ⟨fact, hMem, hOutcome, rfl, hState⟩ := h
  refine ⟨fact.map f, ?_, hOutcome, rfl, hState⟩
  rw [facts_map]
  exact List.mem_map_of_mem hMem

end Shape

/-! ## Searching a list and its counterpart -/

section Search

variable {α β γ δ : Type} {f : α → β} {l : List α}

theorem findSome?_map_of_mem {p : α → Option γ} {q : β → Option δ} {g : γ → δ}
    (h : ∀ a ∈ l, q (f a) = (p a).map g) : (l.map f).findSome? q = (l.findSome? p).map g := by
  induction l with
  | nil => rfl
  | cons a l ih =>
      rw [List.map_cons, List.findSome?_cons, List.findSome?_cons, h a List.mem_cons_self]
      cases p a with
      | none => exact ih fun b hb => h b (List.mem_cons_of_mem a hb)
      | some found => rfl

theorem findIdx?_map_of_mem {p : α → Bool} {q : β → Bool} (h : ∀ a ∈ l, q (f a) = p a) :
    (l.map f).findIdx? q = l.findIdx? p := by
  induction l with
  | nil => rfl
  | cons a l ih =>
      rw [List.map_cons, List.findIdx?_cons, List.findIdx?_cons, h a List.mem_cons_self,
        ih fun b hb => h b (List.mem_cons_of_mem a hb)]

theorem find?_map_of_mem {p : α → Bool} {q : β → Bool} (h : ∀ a ∈ l, q (f a) = p a) :
    (l.map f).find? q = (l.find? p).map f := by
  rw [List.find?_map]
  exact congrArg _ (List.find?_congr h)

end Search

namespace Context

open Arena

/-- A map of expressions under which they look alike, where it covers them: an expression and its image are
the same construct without parentheses, and so are their parts.  What is looked at as it stands, with any
parentheses around it, is the same as well. -/
structure Likeness (A B : Context) where
  map : A.Id → B.Id
  covers : A.Id → Prop
  typesLike : A.config.TypesLike B.config
  covers_stripParens : ∀ {i}, covers i → covers (A.tree.stripParens i)
  covers_part : ∀ {i part}, covers i → part ∈ (A.tree.node (A.tree.stripParens i)).children → covers part
  stripParens_map : ∀ {i}, covers i → B.tree.stripParens (map i) = map (A.tree.stripParens i)
  node_map : ∀ {i}, covers i →
    B.tree.node (map (A.tree.stripParens i)) = (A.tree.node (A.tree.stripParens i)).map map
  typeOf_map : ∀ {i}, covers i → B.oracle.typeOf (map i) = A.oracle.typeOf i
  sameSymbol_map : ∀ {i j}, covers i → covers j →
    B.oracle.sameSymbol (map (A.tree.stripParens i)) (map (A.tree.stripParens j)) =
      A.oracle.sameSymbol (A.tree.stripParens i) (A.tree.stripParens j)
  rest_map : ∀ {i receiver rest}, covers i →
    A.tree.node (A.tree.stripParens i) = .conditionalAccess receiver rest →
      B.tree.node (map rest) = (A.tree.node rest).map map
  isOutVariable_map : ∀ {i callee args}, covers i →
    A.tree.node (A.tree.stripParens i) = .invocation callee args →
      ∀ arg ∈ args, B.isOutVariable (map arg.value) = A.isOutVariable arg.value

namespace Likeness

variable {A B : Context} (l : Likeness A B) {i j : A.Id}

/-- The image of a call. -/
def call (call : A.MemberCall) : B.MemberCall :=
  ⟨l.map call.invocation, l.map call.receiver, call.method, call.args.map (·.map l.map)⟩

theorem node_stripParens (h : l.covers i) :
    B.tree.node (B.tree.stripParens (l.map i)) = (A.tree.node (A.tree.stripParens i)).map l.map := by
  rw [l.stripParens_map h, l.node_map h]

/-! ## Types and places -/

include l in
theorem classify_map {i : A.Id} {p : B.Id} (h : B.oracle.typeOf p = A.oracle.typeOf i) :
    B.answer (B.classify p) = A.answer (A.classify i) := by
  unfold Context.classify
  rw [h]
  cases A.oracle.typeOf i with
  | none => rfl
  | some type =>
      show B.config.classify type = A.config.classify type
      rw [l.typesLike.classify]

/-- **An expression and its image evaluate to the same wrapper.** -/
theorem wrapperFamily_map (h : l.covers i) :
    B.answer (B.wrapperFamily? (l.map i)) = A.answer (A.wrapperFamily? i) := by
  have hStripped := l.classify_map (l.typeOf_map (l.covers_stripParens h))
  simp only [wrapperFamily?, Inquiry.answer_bind]
  simp only [l.stripParens_map h, l.node_map h, hStripped]
  cases (A.answer (A.classify (A.tree.stripParens i))).wrapper? with
  | some family => rfl
  | none =>
      cases hInner : A.tree.node (A.tree.stripParens i) with
      | await operand =>
          have hOperand : l.covers operand := l.covers_part h (by simp [hInner, Node.children])
          simp only [Node.map_await, Inquiry.answer_bind, Inquiry.answer_pure,
            l.classify_map (l.typeOf_map hOperand)]
      | _ => simp

theorem isThis_map (h : l.covers i) : B.tree.isThis (l.map i) = A.tree.isThis i := by
  unfold isThis
  rw [l.node_stripParens h]
  cases A.tree.node (A.tree.stripParens i) <;> simp

theorem sameSymbol_stripParens (hi : l.covers i) (hj : l.covers j) :
    B.oracle.sameSymbol (B.tree.stripParens (l.map i)) (B.tree.stripParens (l.map j)) =
      A.oracle.sameSymbol (A.tree.stripParens i) (A.tree.stripParens j) := by
  rw [l.stripParens_map hi, l.stripParens_map hj, l.sameSymbol_map hi hj]

/-- **Two places are the same exactly if their images are.** -/
theorem sameLocation_map (hi : l.covers i) (hj : l.covers j) :
    B.sameLocation (l.map i) (l.map j) = A.sameLocation i j := by
  unfold Context.sameLocation
  have hNode := l.node_stripParens hi
  have hNode' := l.node_stripParens hj
  fun_induction StateGuard.sameLocation A.tree.toArena A.oracle i j with
  | case1 i j name name' ha hb =>
      rw [ha, Node.map_identifier] at hNode
      rw [hb, Node.map_identifier] at hNode'
      rw [StateGuard.sameLocation, hNode, hNode']
      exact l.sameSymbol_stripParens hi hj
  | case2 i j ha hb =>
      rw [ha, Node.map_this] at hNode
      rw [hb, Node.map_this] at hNode'
      rw [StateGuard.sameLocation, hNode, hNode']
  | case3 i j receiver member receiver' member' ha hb ih =>
      have hReceiver : l.covers receiver := l.covers_part hi (by simp [ha, Node.children])
      have hReceiver' : l.covers receiver' := l.covers_part hj (by simp [hb, Node.children])
      rw [ha, Node.map_memberAccess] at hNode
      rw [hb, Node.map_memberAccess] at hNode'
      rw [StateGuard.sameLocation, hNode, hNode']
      show (member == member' && _) = _
      rw [ih hReceiver hReceiver' (l.node_stripParens hReceiver) (l.node_stripParens hReceiver')]
  | case4 i j name receiver member ha hb =>
      have hReceiver : l.covers receiver := l.covers_part hj (by simp [hb, Node.children])
      rw [ha, Node.map_identifier] at hNode
      rw [hb, Node.map_memberAccess] at hNode'
      rw [StateGuard.sameLocation, hNode, hNode']
      show (B.tree.isThis (l.map receiver) && _) = _
      rw [l.isThis_map hReceiver, l.sameSymbol_stripParens hi hj]
  | case5 i j receiver member name ha hb =>
      have hReceiver : l.covers receiver := l.covers_part hi (by simp [ha, Node.children])
      rw [ha, Node.map_memberAccess] at hNode
      rw [hb, Node.map_identifier] at hNode'
      rw [StateGuard.sameLocation, hNode, hNode']
      show (B.tree.isThis (l.map receiver) && _) = _
      rw [l.isThis_map hReceiver, l.sameSymbol_stripParens hi hj]
  | case6 i j hNames hThis hMembers hMixed hMixed' =>
      rw [StateGuard.sameLocation]
      split
      case h_1 name name' ha hb =>
        exact (hNames name name' (Node.eq_identifier_of_map (hNode ▸ ha))
          (Node.eq_identifier_of_map (hNode' ▸ hb))).elim
      case h_2 ha hb =>
        exact (hThis (Node.eq_this_of_map (hNode ▸ ha)) (Node.eq_this_of_map (hNode' ▸ hb))).elim
      case h_3 ha hb =>
        obtain ⟨receiver, ha, -⟩ := Node.eq_memberAccess_of_map (hNode ▸ ha)
        obtain ⟨receiver', hb, -⟩ := Node.eq_memberAccess_of_map (hNode' ▸ hb)
        exact (hMembers receiver _ receiver' _ ha hb).elim
      case h_4 ha hb =>
        obtain ⟨receiver, hb, -⟩ := Node.eq_memberAccess_of_map (hNode' ▸ hb)
        exact (hMixed _ receiver _ (Node.eq_identifier_of_map (hNode ▸ ha)) hb).elim
      case h_5 ha hb =>
        obtain ⟨receiver, ha, -⟩ := Node.eq_memberAccess_of_map (hNode ▸ ha)
        exact (hMixed' receiver _ _ ha (Node.eq_identifier_of_map (hNode' ▸ hb))).elim
      case h_6 => rfl

/-! ## Calls -/

/-- A call of the same method on the same receiver is made wherever the same construct stands. -/
theorem memberCall_map (hNode : B.tree.node (l.map i) = (A.tree.node i).map l.map)
    (hCallee : ∀ callee args, A.tree.node i = .invocation callee args → l.covers callee) :
    B.memberCall? (l.map i) = (A.memberCall? i).map l.call := by
  unfold memberCall?
  rw [hNode]
  cases hInvocation : A.tree.node i with
  | invocation callee args =>
      simp only [Node.map_invocation, l.node_stripParens (hCallee callee args hInvocation)]
      cases A.tree.node (A.tree.stripParens callee) with
      | memberAccess receiver method => rfl
      | _ => simp
  | _ => simp

theorem memberCall_stripParens (h : l.covers i) :
    B.memberCall? (B.tree.stripParens (l.map i)) =
      (A.memberCall? (A.tree.stripParens i)).map l.call := by
  rw [l.stripParens_map h]
  refine l.memberCall_map (l.node_map h) fun callee args hNode => ?_
  exact l.covers_part h (by simp [hNode, Node.children])

/-- A lambda is an argument of a call as its image is, if its parent is mapped to its image's parent and the
images of arguments tell it apart. -/
theorem callTaking_map {lambda p : A.Id} (hParent : A.tree.parent lambda = some p)
    (hParent' : B.tree.parent (l.map lambda) = some (l.map p))
    (hCall : B.memberCall? (l.map p) = (A.memberCall? p).map l.call)
    (hArgs : ∀ call, A.memberCall? p = some call → ∀ arg ∈ call.args,
      l.map arg.value = l.map lambda ↔ arg.value = lambda) :
    B.callTaking? (l.map lambda) =
      (A.callTaking? lambda).map (Prod.map l.call (Prod.map (·.map l.map) id)) := by
  simp only [callTaking?, Option.bind_eq_bind, hParent, hParent', Option.bind_some, hCall]
  cases hTaken : A.memberCall? p with
  | none => rfl
  | some call =>
      have hFind : (l.call call).args.zipIdx.find? (fun a => a.1.value = l.map lambda) =
          (call.args.zipIdx.find? fun a => a.1.value = lambda).map (Prod.map (·.map l.map) id) := by
        show ((call.args.map (·.map l.map)).zipIdx.find? _) = _
        rw [List.zipIdx_map]
        apply find?_map_of_mem
        intro a ha
        exact decide_eq_decide.2 (hArgs call hTaken a.1 (List.fst_mem_of_mem_zipIdx ha))
      simp only [Option.map_some, Option.bind_some, hFind]
      cases call.args.zipIdx.find? fun a => a.1.value = lambda with
      | none => rfl
      | some found => rfl

/-- The receiver of a call is a part of what it calls. -/
theorem covers_receiver (h : l.covers i) {call : A.MemberCall}
    (hCall : A.memberCall? (A.tree.stripParens i) = some call) : l.covers call.receiver := by
  unfold memberCall? at hCall
  split at hCall
  · next callee args hNode =>
      have hCallee : l.covers callee := l.covers_part h (by simp [hNode, Node.children])
      split at hCall
      · next hAccess =>
          obtain rfl := Option.some.inj hCall
          exact l.covers_part hCallee (by simp [hAccess, Node.children])
      · simp at hCall
  · simp at hCall

/-! ## Conditions -/

theorem memberRead_map (h : l.covers i) :
    B.memberRead? (l.map i) = (A.memberRead? i).map (Prod.map l.map id) := by
  unfold memberRead?
  rw [l.node_stripParens h]
  cases hNode : A.tree.node (A.tree.stripParens i) with
  | memberAccess receiver member => rfl
  | conditionalAccess receiver rest =>
      simp only [Node.map_conditionalAccess, l.rest_map h hNode]
      cases A.tree.node rest with
      | memberBinding member => rfl
      | _ => simp
  | _ => simp

/-- What an expression reads a member of is one of its parts. -/
theorem covers_of_memberRead (h : l.covers i) {subject : A.Id} {member : String}
    (hRead : A.memberRead? i = some (subject, member)) : l.covers subject := by
  unfold memberRead? at hRead
  split at hRead
  · next hNode =>
      obtain ⟨rfl, -⟩ := Prod.mk.inj (Option.some.inj hRead)
      exact l.covers_part h (by simp [hNode, Node.children])
  · next hNode =>
      split at hRead
      · obtain ⟨rfl, -⟩ := Prod.mk.inj (Option.some.inj hRead)
        exact l.covers_part h (by simp [hNode, Node.children])
      · simp at hRead
  · simp at hRead

theorem roleOf_map (h : l.covers i) (member : String) :
    B.roleOf? (l.map i) member = A.roleOf? i member := by
  unfold roleOf?
  rw [l.wrapperFamily_map h, funext fun family => l.typesLike.role family member]

theorem discriminant_map (h : l.covers i) :
    B.answer (B.discriminant? (l.map i)) =
      (A.answer (A.discriminant? i)).map (Prod.map l.map id) := by
  have hRead' := l.memberRead_map h
  cases hRead : A.memberRead? i with
  | none =>
      rw [hRead] at hRead'
      simp [discriminant?, hRead, hRead']
  | some read =>
      have hSubject : l.covers read.1 := l.covers_of_memberRead h hRead
      rw [hRead] at hRead'
      rw [answer_discriminant hRead', answer_discriminant hRead, id, l.roleOf_map hSubject]
      cases A.roleOf? read.1 read.2 with
      | none => rfl
      | some role => cases role <;> rfl

theorem boolLiteral_map (h : l.covers i) : B.boolLiteral? (l.map i) = A.boolLiteral? i := by
  unfold boolLiteral?
  rw [l.node_stripParens h]
  cases A.tree.node (A.tree.stripParens i) with
  | literal value => cases value <;> rfl
  | _ => simp

theorem literalTest_map (h : l.covers i) (expected : Bool) :
    B.answer (B.literalTest (l.map i) expected) =
      (A.answer (A.literalTest i expected)).map l.map := by
  simp only [literalTest, Inquiry.answer_bind, l.discriminant_map h, Context.answer]
  cases (A.discriminant? i).answer A.config.classify with
  | none => rfl
  | some read => rfl

theorem comparison_map (isEquality : Bool) (hi : l.covers i) (hj : l.covers j) :
    B.answer (B.comparison isEquality (l.map i) (l.map j)) =
      (A.answer (A.comparison isEquality i j)).map l.map := by
  unfold comparison
  rw [l.boolLiteral_map hi, l.boolLiteral_map hj]
  cases A.boolLiteral? i with
  | none =>
      cases A.boolLiteral? j with
      | none => rfl
      | some value => exact l.literalTest_map hi _
  | some value =>
      cases A.boolLiteral? j with
      | none => exact l.literalTest_map hj _
      | some value' => rfl

theorem tryCall_map (h : l.covers i) :
    B.answer (B.tryCall (B.tree.stripParens (l.map i))) =
      (A.answer (A.tryCall (A.tree.stripParens i))).map l.map := by
  unfold tryCall
  rw [l.memberCall_stripParens h]
  cases hCall : A.memberCall? (A.tree.stripParens i) with
  | none => rfl
  | some call =>
      obtain ⟨callee, hNode, -⟩ := isWithin_callee_of_memberCall hCall
      have hReceiver : l.covers call.receiver := l.covers_receiver h hCall
      have hOut : ((l.call call).args.map (·.value)).find? B.isOutVariable =
          ((call.args.map (·.value)).find? A.isOutVariable).map l.map := by
        have hValues : (l.call call).args.map (·.value) = (call.args.map (·.value)).map l.map := by
          simp [Likeness.call, Argument.map, Function.comp_def]
        rw [hValues]
        apply find?_map_of_mem
        intro a ha
        obtain ⟨arg, hArg, rfl⟩ := List.mem_map.1 ha
        exact l.isOutVariable_map h hNode arg hArg
      simp only [Option.map_some, Inquiry.answer_bind]
      rw [hOut]
      simp only [Likeness.call, l.wrapperFamily_map hReceiver, l.typesLike.role, Context.answer]
      cases (A.wrapperFamily? call.receiver).answer A.config.classify with
      | none => rfl
      | some family =>
          dsimp only
          cases A.config.role? family call.method with
          | none => rfl
          | some role => cases role <;> rfl

/-- **A condition and its image have the same shape.** -/
theorem shape_map (h : l.covers i) :
    B.answer (B.shape (l.map i)) = (A.answer (A.shape i)).map l.map := by
  have hNode' := l.node_stripParens h
  induction i using shape.induct with
  | case1 i operand hNode ih =>
      have hOperand : l.covers operand := l.covers_part h (by simp [hNode, Node.children])
      rw [hNode, Node.map_unary] at hNode'
      rw [shape_not hNode', shape_not hNode, ih hOperand (l.node_stripParens hOperand),
        Shape.negate_map]
  | case2 i left right hNode ihLeft ihRight =>
      have hLeft : l.covers left := l.covers_part h (by simp [hNode, Node.children])
      have hRight : l.covers right := l.covers_part h (by simp [hNode, Node.children])
      rw [hNode, Node.map_binary] at hNode'
      rw [shape_and hNode', shape_and hNode, ihLeft hLeft (l.node_stripParens hLeft),
        ihRight hRight (l.node_stripParens hRight)]
      exact Shape.compound_map _ (fun _ _ => rfl) _ _
  | case3 i left right hNode ihLeft ihRight =>
      have hLeft : l.covers left := l.covers_part h (by simp [hNode, Node.children])
      have hRight : l.covers right := l.covers_part h (by simp [hNode, Node.children])
      rw [hNode, Node.map_binary] at hNode'
      rw [shape_or hNode', shape_or hNode, ihLeft hLeft (l.node_stripParens hLeft),
        ihRight hRight (l.node_stripParens hRight)]
      exact Shape.compound_map _ (fun _ _ => rfl) _ _
  | case4 i left right hNode =>
      have hLeft : l.covers left := l.covers_part h (by simp [hNode, Node.children])
      have hRight : l.covers right := l.covers_part h (by simp [hNode, Node.children])
      rw [hNode, Node.map_binary] at hNode'
      rw [shape_eq hNode', shape_eq hNode, l.comparison_map true hLeft hRight]
  | case5 i left right hNode =>
      have hLeft : l.covers left := l.covers_part h (by simp [hNode, Node.children])
      have hRight : l.covers right := l.covers_part h (by simp [hNode, Node.children])
      rw [hNode, Node.map_binary] at hNode'
      rw [shape_notEq hNode', shape_notEq hNode, l.comparison_map false hLeft hRight]
  | case6 i operand value hNode =>
      have hOperand : l.covers operand := l.covers_part h (by simp [hNode, Node.children])
      rw [hNode, Node.map_isPattern] at hNode'
      rw [shape_test hNode', shape_test hNode, l.literalTest_map hOperand]
  | case7 i callee args hNode =>
      rw [hNode, Node.map_invocation] at hNode'
      rw [shape_call hNode', shape_call hNode, l.tryCall_map h]
  | case8 i hNot hAnd hOr hEq hNotEq hTest hCall =>
      -- both sides go on with what is read, one with the image of the other's
      have hOther : ∀ {f : Option (A.Id × State) → Inquiry (Shape A.Id)}
          {g : Option (B.Id × State) → Inquiry (Shape B.Id)},
          (∀ read, B.answer (g (read.map (Prod.map l.map id))) = (A.answer (f read)).map l.map) →
          B.answer (B.discriminant? (B.tree.stripParens (l.map i)) >>= g) =
            (A.answer (A.discriminant? (A.tree.stripParens i) >>= f)).map l.map := by
        intro f g hRest
        simp only [Inquiry.answer_bind, l.stripParens_map h,
          l.discriminant_map (l.covers_stripParens h)]
        exact hRest _
      cases hNode : A.tree.node (A.tree.stripParens i) with
      | invocation callee args => exact (hCall callee args hNode).elim
      | unary op operand =>
          cases op with
          | not => exact (hNot operand hNode).elim
          | negate =>
              simp only [hNode, Node.map_unary] at hNode'
              rw [shape, hNode', shape, hNode]
              exact hOther fun read => by cases read <;> rfl
      | binary op left right =>
          simp only [hNode, Node.map_binary] at hNode'
          cases op with
          | and => exact (hAnd left right hNode).elim
          | or => exact (hOr left right hNode).elim
          | eq => exact (hEq left right hNode).elim
          | notEq => exact (hNotEq left right hNode).elim
          | _ =>
              rw [shape, hNode', shape, hNode]
              exact hOther fun read => by cases read <;> rfl
      | isPattern operand pattern =>
          simp only [hNode, Node.map_isPattern] at hNode'
          cases pattern with
          | literal value =>
              cases value with
              | bool value => exact (hTest operand value hNode).elim
              | _ =>
                  rw [shape, hNode', shape, hNode]
                  exact hOther fun read => by cases read <;> rfl
          | _ =>
              rw [shape, hNode', shape, hNode]
              exact hOther fun read => by cases read <;> rfl
      | _ =>
          simp [hNode] at hNode'
          rw [shape, hNode', shape, hNode]
          exact hOther fun read => by cases read <;> rfl

theorem facts_map (h : l.covers i) :
    B.answer (B.facts (l.map i)) = (A.answer (A.facts i)).map (Fact.map l.map) := by
  simp only [facts, Inquiry.answer_bind, Inquiry.answer_pure]
  exact (congrArg Shape.facts (l.shape_map h)).trans (Shape.facts_map _ _)

end Likeness

end Context

end StateGuard
