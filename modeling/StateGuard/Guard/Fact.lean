import StateGuard.State

/-!
# Facts

A fact says that a predicate of some expression has a certain truth value, in one branch of the
condition that it was taken from.
-/

namespace StateGuard

/-- A predicate that reads the state of a wrapper. -/
inductive Predicate where
  /-- The discriminant of a state. -/
  | discriminant (state : State)
  /-- The success of the try accessor for a state. -/
  | trySucceeded (state : State)
  deriving DecidableEq, Repr, Inhabited

namespace Predicate

/-- The state that a truth value of a predicate proves. A try accessor that fails proves nothing,
since it may fail for other reasons. -/
def impliedState? : Predicate → Bool → Option State
  | .discriminant state, true => some state
  | .discriminant state, false => some state.flip
  | .trySucceeded state, true => some state
  | .trySucceeded _, false => none

/-- How a predicate is written. -/
def label : Predicate → String
  | .discriminant state => state.label
  | .trySucceeded state => "try:" ++ state.label

end Predicate

/-- The two outcomes of a condition. -/
inductive Branch where
  | whenTrue
  | whenFalse
  deriving DecidableEq, Repr, Inhabited

/-- A truth value of a predicate of a subject, in one branch. -/
structure Fact (ι : Type) where
  branch : Branch
  subject : ι
  predicate : Predicate
  truth : Bool
  deriving DecidableEq, Repr

/-- The state of the subject that a fact proves. -/
def Fact.impliedState? {ι : Type} (fact : Fact ι) : Option State :=
  fact.predicate.impliedState? fact.truth

end StateGuard
