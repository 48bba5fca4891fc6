import StateGuard.Guard.Fact

/-!
# Shapes of conditions

The forms of conditions that prove something, and the facts that each form proves in its branches.
-/

namespace StateGuard

/-- A form of condition over subjects named by `ι`. -/
inductive Shape (ι : Type) where
  /-- A discriminant. -/
  | discriminant (subject : ι) (state : State)
  /-- A discriminant with a negation. -/
  | negated (subject : ι) (state : State)
  /-- A discriminant compared with a literal; `expected` is its value when the comparison holds. -/
  | literal (subject : ι) (state : State) (expected : Bool)
  /-- A call of a try accessor, with its out variable. -/
  | tryAccessor (subject : ι) (state : State) (out : Option ι)
  | conjunction (left right : Shape ι)
  | disjunction (left right : Shape ι)
  /-- A condition that proves nothing. -/
  | unrecognized
  deriving DecidableEq, Repr, Inhabited

namespace Shape

variable {ι : Type}

/-- The shape of the negation. Only single discriminants can be turned round. -/
def negate : Shape ι → Shape ι
  | .discriminant subject state => .negated subject state
  | .negated subject state => .discriminant subject state
  | .literal subject state expected => .literal subject state !expected
  | _ => .unrecognized

/-- Whether a condition has one of the forms. -/
def isRecognized : Shape ι → Bool
  | .unrecognized => false
  | _ => true

/-- The facts of a discriminant that has the given value when the condition holds. -/
def split (subject : ι) (state : State) (truth : Bool) : List (Fact ι) :=
  [⟨.whenTrue, subject, .discriminant state, truth⟩,
   ⟨.whenFalse, subject, .discriminant state, !truth⟩]

/-- The facts that a condition proves in its branches. When a conjunction holds so do both sides,
but when it fails either may have failed; a disjunction is the other way round. -/
def facts : Shape ι → List (Fact ι)
  | .discriminant subject state => split subject state true
  | .negated subject state => split subject state false
  | .literal subject state expected => split subject state expected
  | .tryAccessor subject state _ => [⟨.whenTrue, subject, .trySucceeded state, true⟩]
  | .conjunction left right => (left.facts ++ right.facts).filter (·.branch = .whenTrue)
  | .disjunction left right => (left.facts ++ right.facts).filter (·.branch = .whenFalse)
  | .unrecognized => []

/-- Keep a compound of two shapes if one of them is recognized. -/
def compound (make : Shape ι → Shape ι → Shape ι) (left right : Shape ι) : Shape ι :=
  if left.isRecognized || right.isRecognized then make left right else .unrecognized

/-- The subject of a shape that is about one discriminant. -/
def subject? : Shape ι → Option ι
  | .discriminant subject _ => some subject
  | .negated subject _ => some subject
  | .literal subject _ _ => some subject
  | _ => none

end Shape

end StateGuard
