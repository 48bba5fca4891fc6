/-!
# States of a wrapper

A wrapper value is in one of two states, and the members of its type read that state or depend on
it.
-/

namespace StateGuard

/-- The two states of a wrapper value. -/
inductive State where
  /-- The wrapper carries its payload. -/
  | ok
  /-- The wrapper carries the other payload, or nothing. -/
  | notOk
  deriving DecidableEq, Repr, Inhabited

namespace State

/-- The word for a state. -/
def label : State → String
  | .ok => "ok"
  | .notOk => "not-ok"

/-- The other state. -/
def flip : State → State
  | .ok => .notOk
  | .notOk => .ok

end State

/-- What a member means on a wrapper. -/
inductive Role where
  /-- A boolean that is true exactly in the state. -/
  | discriminant (state : State)
  /-- A value that can be read only in the state. -/
  | payload (state : State)
  /-- A call that can succeed only in the state, and then hands out the payload. -/
  | tryAccessor (state : State)
  deriving DecidableEq, Repr, Inhabited

end StateGuard
