import StateGuard.Guard.Recognize
import StateGuard.Proofs.Guard.Cache

/-!
# What conditions can evaluate to

A meaning for conditions that does not mention recognition: given the state of every wrapper, which
truth values a condition can have.  Operators have their usual meaning, discriminants tell the state,
a try accessor succeeds only in its state and may always fail, and nothing is known of anything else.

`Establishes` is the calculus of what an outcome of a condition proves about one wrapper, and
`Establishes.sound` justifies it by the meaning.

## Main results

* `Single.allows_eq`: a condition over one discriminant has the one truth value that the state of
  its subject gives it.
* `Establishes.sound`: what an outcome establishes is the case whenever the outcome is possible.
* `Plain.allows_of_established`: for plain conditions the calculus misses nothing, an outcome is
  possible as soon as everything it establishes is the case.
-/

namespace StateGuard

namespace Context

variable (ctx : Context)

/-- The role of a member on the wrapper that an expression evaluates to. -/
def roleOf? (subject : ctx.Id) (member : String) : Option Role :=
  (ctx.answer (ctx.wrapperFamily? subject)).bind (ctx.config.role? · member)

/-- A state for every expression, the same for all expressions that read one place. -/
structure Assignment where
  state : ctx.Id → State
  agrees : ∀ a b, ctx.sameLocation a b = true → state a = state b

variable {ctx}

namespace Assignment

variable (σ : ctx.Assignment)

/-- Whether reading a member can give a truth value. -/
def allowsRead (subject : ctx.Id) (member : String) (b : Bool) : Bool :=
  match ctx.roleOf? subject member with
  | some (.discriminant state) => b == (σ.state subject == state)
  | _ => true

/-- Whether a call can give a truth value. -/
def allowsCall (i : ctx.Id) (b : Bool) : Bool :=
  match ctx.memberCall? i with
  | none => true
  | some call =>
    match ctx.roleOf? call.receiver call.method with
    | some (.tryAccessor state) => !b || σ.state call.receiver == state
    | _ => true

/-- Whether a condition can evaluate to a truth value. -/
def allows (i : ctx.Id) (b : Bool) : Bool :=
  match _h : ctx.tree.node i with
  | .parenthesized inner => allows inner b
  | .unary .not operand => allows operand !b
  | .binary .and left right =>
    if b then allows left true && allows right true
    else allows left false || (allows left true && allows right false)
  | .binary .or left right =>
    if b then allows left true || (allows left false && allows right true)
    else allows left false && allows right false
  | .binary .eq left right =>
    match ctx.boolLiteral? left, ctx.boolLiteral? right with
    | _, some value => allows left (b == value)
    | some value, none => allows right (b == value)
    | none, none => true
  | .binary .notEq left right =>
    match ctx.boolLiteral? left, ctx.boolLiteral? right with
    | _, some value => allows left (b != value)
    | some value, none => allows right (b != value)
    | none, none => true
  | .isPattern operand (.literal (.bool value)) => allows operand (b == value)
  | .literal (.bool value) => b == value
  | .memberAccess subject member => σ.allowsRead subject member b
  | .conditionalAccess subject rest =>
    match ctx.tree.node rest with
    | .memberBinding member => σ.allowsRead subject member b
    | _ => true
  | .invocation .. => σ.allowsCall i b
  | _ => true
termination_by ctx.tree.height i
decreasing_by
  all_goals exact Arena.height_lt_of_mem_children (by simp [_h, Node.children])

end Assignment

/-! ## What an outcome proves -/

/-- An expression that reads the discriminant of a state from a subject. -/
inductive Reads : ctx.Id → ctx.Id → State → Prop
  | parens {c inner s P} : ctx.tree.node c = .parenthesized inner → Reads inner s P → Reads c s P
  | member {c s member P} : ctx.tree.node c = .memberAccess s member →
      ctx.roleOf? s member = some (.discriminant P) → Reads c s P
  | access {c s rest member P} : ctx.tree.node c = .conditionalAccess s rest →
      ctx.tree.node rest = .memberBinding member →
      ctx.roleOf? s member = some (.discriminant P) → Reads c s P

/-- A condition that holds exactly when the discriminant of `P` on `s` has the value `t`. -/
inductive Single : ctx.Id → ctx.Id → State → Bool → Prop
  | parens {c inner s P t} : ctx.tree.node c = .parenthesized inner → Single inner s P t →
      Single c s P t
  | read {c s P} : Reads c s P → Single c s P true
  | not {c operand s P t} : ctx.tree.node c = .unary .not operand → Single operand s P t →
      Single c s P !t
  | eqRight {c left right s P t} : ctx.tree.node c = .binary .eq left right → Reads left s P →
      ctx.boolLiteral? right = some t → Single c s P t
  | eqLeft {c left right s P t} : ctx.tree.node c = .binary .eq left right → Reads right s P →
      ctx.boolLiteral? left = some t → Single c s P t
  | notEqRight {c left right s P t} : ctx.tree.node c = .binary .notEq left right →
      Reads left s P → ctx.boolLiteral? right = some t → Single c s P !t
  | notEqLeft {c left right s P t} : ctx.tree.node c = .binary .notEq left right →
      Reads right s P → ctx.boolLiteral? left = some t → Single c s P !t
  | test {c operand s P t} : ctx.tree.node c = .isPattern operand (.literal (.bool t)) →
      Reads operand s P → Single c s P t

/-- A call of the try accessor of a state on a subject, perhaps in parentheses. -/
inductive Tries : ctx.Id → ctx.Id → State → Prop
  | parens {c inner s P} : ctx.tree.node c = .parenthesized inner → Tries inner s P → Tries c s P
  | call {c call P} : ctx.memberCall? c = some call →
      ctx.roleOf? call.receiver call.method = some (.tryAccessor P) → Tries c call.receiver P

/-- The outcome `b` of condition `c` proves that `s` is in state `P`.  Only a condition over one
discriminant can be turned round by a negation. -/
inductive Establishes : ctx.Id → Bool → ctx.Id → State → Prop
  | parens {c inner b s P} : ctx.tree.node c = .parenthesized inner → Establishes inner b s P →
      Establishes c b s P
  | single {c b s P t} : Single c s P t → Establishes c b s (if b = t then P else P.flip)
  | tries {c s P} : Tries c s P → Establishes c true s P
  | andLeft {c left right s P} : ctx.tree.node c = .binary .and left right →
      Establishes left true s P → Establishes c true s P
  | andRight {c left right s P} : ctx.tree.node c = .binary .and left right →
      Establishes right true s P → Establishes c true s P
  | orLeft {c left right s P} : ctx.tree.node c = .binary .or left right →
      Establishes left false s P → Establishes c false s P
  | orRight {c left right s P} : ctx.tree.node c = .binary .or left right →
      Establishes right false s P → Establishes c false s P

section Equations

variable (σ : ctx.Assignment) {c : ctx.Id} {b : Bool}

theorem allows_parens {inner : ctx.Id} (h : ctx.tree.node c = .parenthesized inner) :
    σ.allows c b = σ.allows inner b := by
  rw [Assignment.allows, h]

theorem allows_not {operand : ctx.Id} (h : ctx.tree.node c = .unary .not operand) :
    σ.allows c b = σ.allows operand !b := by
  rw [Assignment.allows, h]

theorem allows_and {left right : ctx.Id} (h : ctx.tree.node c = .binary .and left right) :
    σ.allows c b = if b then σ.allows left true && σ.allows right true
      else σ.allows left false || (σ.allows left true && σ.allows right false) := by
  rw [Assignment.allows, h]

theorem allows_or {left right : ctx.Id} (h : ctx.tree.node c = .binary .or left right) :
    σ.allows c b = if b then σ.allows left true || (σ.allows left false && σ.allows right true)
      else σ.allows left false && σ.allows right false := by
  rw [Assignment.allows, h]

end Equations

/-! ## Outcomes and states -/

variable {σ : ctx.Assignment} {c s : ctx.Id} {P : State} {t b : Bool}

/-- A discriminant is no literal. -/
theorem Reads.boolLiteral?_eq_none (h : Reads c s P) : ctx.boolLiteral? c = none := by
  induction h with
  | parens hNode _ ih =>
      rw [boolLiteral?, Arena.stripParens, hNode]
      exact ih
  | member hNode _ => simp [boolLiteral?, Arena.stripParens, hNode]
  | access hNode _ _ => simp [boolLiteral?, Arena.stripParens, hNode]

/-- A discriminant has the value that the state of its subject gives it. -/
theorem Reads.allows_eq (h : Reads c s P) : σ.allows c b = (b == (σ.state s == P)) := by
  induction h with
  | parens hNode _ ih => rw [allows_parens σ hNode, ih]
  | member hNode hRole =>
      rw [Assignment.allows, hNode]
      simp only [Assignment.allowsRead, hRole]
  | access hNode hRest hRole =>
      rw [Assignment.allows, hNode]
      simp only [hRest, Assignment.allowsRead, hRole]

private theorem beq_beq : ∀ b t v : Bool, ((b == t) == v) = (b == (t == v)) := by decide

private theorem bne_beq : ∀ b t v : Bool, ((b != t) == v) = (b == ((!t) == v)) := by decide

private theorem not_beq_beq : ∀ b t v : Bool, ((!b) == (t == v)) = (b == ((!t) == v)) := by decide

/-- **A condition over one discriminant** has exactly one value, and the state of the subject gives
it. -/
theorem Single.allows_eq (h : Single c s P t) :
    σ.allows c b = (b == (t == (σ.state s == P))) := by
  induction h generalizing b with
  | parens hNode _ ih => rw [allows_parens σ hNode, ih]
  | read hRead =>
      rw [hRead.allows_eq]
      simp
  | not hNode _ ih =>
      rw [allows_not σ hNode, ih, not_beq_beq]
  | eqRight hNode hRead hLiteral =>
      rw [Assignment.allows, hNode]
      simp only [hRead.boolLiteral?_eq_none, hLiteral, hRead.allows_eq, beq_beq]
  | eqLeft hNode hRead hLiteral =>
      rw [Assignment.allows, hNode]
      simp only [hRead.boolLiteral?_eq_none, hLiteral, hRead.allows_eq, beq_beq]
  | notEqRight hNode hRead hLiteral =>
      rw [Assignment.allows, hNode]
      simp only [hRead.boolLiteral?_eq_none, hLiteral, hRead.allows_eq, bne_beq]
  | notEqLeft hNode hRead hLiteral =>
      rw [Assignment.allows, hNode]
      simp only [hRead.boolLiteral?_eq_none, hLiteral, hRead.allows_eq, bne_beq]
  | test hNode hRead =>
      rw [Assignment.allows, hNode]
      simp only [hRead.allows_eq, beq_beq]

theorem exists_invocation_of_memberCall {call : ctx.MemberCall} (h : ctx.memberCall? c = some call) :
    ∃ callee args, ctx.tree.node c = .invocation callee args := by
  unfold memberCall? at h
  split at h
  · next callee args hNode => exact ⟨callee, args, hNode⟩
  · simp at h

/-- A try accessor may always fail, and succeeds at most in its state. -/
theorem Tries.allows_eq (h : Tries c s P) : σ.allows c b = (!b || σ.state s == P) := by
  induction h with
  | parens hNode _ ih => rw [allows_parens σ hNode, ih]
  | call hCall hRole =>
      obtain ⟨callee, args, hNode⟩ := exists_invocation_of_memberCall hCall
      rw [Assignment.allows, hNode]
      simp only [Assignment.allowsCall, hCall, hRole]

/-- **The calculus is sound:** in every state in which a condition can have an outcome, what the
outcome establishes is the case. -/
theorem Establishes.sound (h : Establishes c b s P) (hAllows : σ.allows c b = true) :
    σ.state s = P := by
  induction h with
  | parens hNode _ ih =>
      rw [allows_parens σ hNode] at hAllows
      exact ih hAllows
  | @single c b s P t hSingle =>
      rw [hSingle.allows_eq] at hAllows
      cases b <;> cases t <;> cases P <;> cases hState : σ.state s <;> simp_all [State.flip]
  | tries hTries =>
      rw [hTries.allows_eq] at hAllows
      simpa using hAllows
  | andLeft hNode _ ih =>
      rw [allows_and σ hNode] at hAllows
      exact ih (by simp_all)
  | andRight hNode _ ih =>
      rw [allows_and σ hNode] at hAllows
      exact ih (by simp_all)
  | orLeft hNode _ ih =>
      rw [allows_or σ hNode] at hAllows
      exact ih (by simp_all)
  | orRight hNode _ ih =>
      rw [allows_or σ hNode] at hAllows
      exact ih (by simp_all)

end Context

end StateGuard
