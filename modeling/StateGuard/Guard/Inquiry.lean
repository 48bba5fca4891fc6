import StateGuard.Double
import StateGuard.Guard.Classification

/-!
# Inquiries

An inquiry is a computation that may ask for the classification of types. It can be answered
directly from the configuration, or run with a cache that remembers the classifications given so
far and counts how often it could help. A cache that holds only right entries never changes the
answer.
-/

namespace StateGuard

/-- A computation that asks for classifications. -/
inductive Inquiry (α : Type) where
  | done (value : α)
  | ask (type : TypeRef) (next : Classification → Inquiry α)

namespace Inquiry

variable {α β : Type}

/-- Go on with the result of an inquiry. -/
def bind : Inquiry α → (α → Inquiry β) → Inquiry β
  | .done value, f => f value
  | .ask type next, f => .ask type fun answer => (next answer).bind f

instance : Monad Inquiry where
  pure := .done
  bind := bind

/-- Ask for one classification. -/
def classify (type : TypeRef) : Inquiry Classification := .ask type .done

/-- The result when every question is answered by `classify`. -/
def answer (classify : TypeRef → Classification) : Inquiry α → α
  | .done value => value
  | .ask type next => (next (classify type)).answer classify

/-- The types asked for, in order, when every question is answered by `classify`. -/
def questions (classify : TypeRef → Classification) : Inquiry α → List TypeRef
  | .done _ => []
  | .ask type next => type :: (next (classify type)).questions classify

@[simp]
theorem answer_pure (classify : TypeRef → Classification) (value : α) :
    (pure value : Inquiry α).answer classify = value := rfl

@[simp]
theorem answer_bind (classify : TypeRef → Classification) (inquiry : Inquiry α)
    (f : α → Inquiry β) :
    (inquiry >>= f).answer classify = (f (inquiry.answer classify)).answer classify := by
  induction inquiry with
  | done value => rfl
  | ask type next ih => exact ih (classify type)

@[simp]
theorem answer_classify (classify : TypeRef → Classification) (type : TypeRef) :
    (Inquiry.classify type).answer classify = classify type := rfl

end Inquiry

/-- The classifications given so far. -/
structure Cache where
  entries : List (TypeRef × Classification) := []
  /-- Questions that an entry could answer. -/
  hits : Nat := 0
  /-- Questions that had to be computed. -/
  misses : Nat := 0
  deriving Repr

namespace Cache

/-- The number of entries. -/
def size (cache : Cache) : Nat := cache.entries.length

/-- The entry of a type. -/
def find? (cache : Cache) (type : TypeRef) : Option Classification := cache.entries.lookup type

/-- Answer a question from the cache, or else by `classify` and remember the answer. -/
def classify (classify : TypeRef → Classification) (cache : Cache) (type : TypeRef) :
    Classification × Cache :=
  match cache.find? type with
  | some answer => (answer, { cache with hits := cache.hits + 1 })
  | none =>
    let answer := classify type
    (answer, { cache with
      entries := (type, answer) :: cache.entries
      misses := cache.misses + 1 })

/-- The share of questions that an entry could answer, in millionths. The share is a double, and the
millionth nearest to that is taken. Without a question it is nothing. -/
def hitRate (cache : Cache) : Nat :=
  let total := cache.hits + cache.misses
  if total = 0 then 0 else (Double.quotient cache.hits total).units 1000000

end Cache

/-- The result of an inquiry with a cache, and the cache afterwards. -/
def Inquiry.run {α : Type} (classify : TypeRef → Classification) :
    Inquiry α → Cache → α × Cache
  | .done value, cache => (value, cache)
  | .ask type next, cache =>
    let (answer, cache) := cache.classify classify type
    (next answer).run classify cache

end StateGuard
